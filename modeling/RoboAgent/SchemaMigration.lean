import Mathlib
import RoboAgent.SnapshotStorage

/-! Loading a record of an older schema. Decoding it allocates message ids, so the repositories store
what they decoded before they return it: the one in memory under its lock, the local one under an
exclusive file lock, by replacing the file. -/

namespace RoboAgent.SchemaMigration
open RoboAgent.FrozenJson RoboAgent.SortedJson RoboAgent.Messages RoboAgent.MessageChecks
open RoboAgent.SnapshotCodec RoboAgent.SnapshotRoundTrip RoboAgent.SnapshotStorage RoboAgent.Runs
open RoboAgent.FalliblePrograms

section Codec
variable (lib : Library) (maxInlineBytes : Nat)

def rawSchemaVersion (data : List UInt8) : Result Int :=
  match lib.loads data with
  | some (.obj value) =>
    match getField value "schema_version" with
    | .int version => .ok version
    | _ => .error (.codec (.versionUnsupported "Unsupported Session snapshot version."))
  | _ => corrupted "Snapshot is not valid JSON."

def needsMigration (data : List UInt8) : Result Bool := do
  let version ← rawSchemaVersion lib data
  .ok (version < 2)

end Codec

def checkLoadedSessionId (snapshot : SessionSnapshot) (sessionId : String) : Result Unit :=
  if snapshot.sessionId = sessionId then .ok ()
  else corrupted "Snapshot session ID does not match its repository key."

section Constructed
variable {lib : Library} {maxInlineBytes : Nat}

theorem build_eq_ok {α : Type} {checked : α → Bool} {value made : α}
    (h : build checked value = .ok made) : made = value ∧ checked value = true := by
  rw [build] at h
  split_ifs at h with valid
  cases h
  exact ⟨rfl, valid⟩

/-- What a message the codec has constructed satisfies. -/
def Readable (lib : Library) (message : AgentMessage) : Prop :=
  messageChecked lib message = true ∧ ({} : MediaLimits).admits message.content = true

theorem readable_of_build {message made : AgentMessage}
    (h : build (fun message => ({} : MediaLimits).admits message.content &&
      messageChecked lib message) message = .ok made) : Readable lib made := by
  obtain ⟨rfl, valid⟩ := build_eq_ok h
  obtain ⟨admitted, checked⟩ := Bool.and_eq_true_iff.mp valid
  exact ⟨checked, admitted⟩

theorem readable_of_decodeFields {value : Fields} {contents : List MessageContent}
    {timestamp : PyFloat} {messageId : String} {message : AgentMessage}
    (h : decodeFields lib value contents timestamp messageId = .ok message) :
    Readable lib message := by
  have made := guarded_eq_ok h
  split at made
  · exact readable_of_build made
  · iterate 3 obtain ⟨_, -, made⟩ := bind_eq_ok made
    exact readable_of_build made
  · obtain ⟨_, -, made⟩ := bind_eq_ok made
    obtain ⟨_, -, made⟩ := bind_eq_ok made
    obtain ⟨_, -, made⟩ := bind_eq_ok made
    obtain ⟨_, -, made⟩ := bind_eq_ok made
    obtain ⟨_, -, made⟩ := bind_eq_ok made
    obtain ⟨_, -, made⟩ := bind_eq_ok made
    obtain ⟨_, -, made⟩ := bind_eq_ok made
    exact readable_of_build made
  · cases made

theorem readable_of_decodeMessage {fresh : String} {data : JsonValue} {message : AgentMessage}
    (h : decodeMessage lib maxInlineBytes fresh data = .ok message) : Readable lib message := by
  unfold decodeMessage at h
  split at h
  · split at h
    · iterate 3 obtain ⟨_, -, h⟩ := bind_eq_ok h
      exact readable_of_decodeFields h
    · cases h
  · cases h

theorem constructed_of_decodePending {fresh : String} {data : JsonValue} {item : PendingInput}
    (h : decodePending lib maxInlineBytes fresh data = .ok item) :
    Readable lib (.user item.message) ∧ receiptChecked item.receipt = true := by
  obtain ⟨value, -, h⟩ := bind_eq_ok h
  obtain ⟨record, -, h⟩ := bind_eq_ok h
  obtain ⟨message, read, h⟩ := bind_eq_ok h
  split at h
  · obtain ⟨stored, -, h⟩ := bind_eq_ok h
    obtain ⟨receipt, received, h⟩ := bind_eq_ok h
    iterate 2 obtain ⟨_, -, h⟩ := bind_eq_ok h
    cases h
    iterate 8 obtain ⟨_, -, received⟩ := bind_eq_ok received
    obtain ⟨rfl, checked⟩ := build_eq_ok received
    exact ⟨readable_of_decodeMessage read, checked⟩
  · cases h
  · cases h

theorem checked_of_decodeCompaction {data : JsonValue} {summary : ContextSummary}
    (h : decodeCompaction data = .ok summary) : summaryChecked summary = true := by
  iterate 12 obtain ⟨_, -, h⟩ := bind_eq_ok h
  obtain ⟨rfl, checked⟩ := build_eq_ok h
  exact checked

theorem mem_of_decodeAll {α : Type} {decode : String → JsonValue → Result α} {place : Nat}
    {data : List JsonValue} {values : List α} (h : decodeAll lib decode place data = .ok values) :
    ∀ value ∈ values, ∃ fresh record, decode fresh record = .ok value := by
  induction data generalizing place values with
  | nil =>
    cases h
    exact List.forall_mem_nil _
  | cons first rest ih =>
    rw [decodeAll] at h
    obtain ⟨value, made, h⟩ := bind_eq_ok h
    obtain ⟨others, later, h⟩ := bind_eq_ok h
    cases h
    exact List.forall_mem_cons.mpr ⟨⟨_, _, made⟩, ih later⟩

theorem decodeNullable_eq_some {α : Type} {decode : JsonValue → Result α} {data : JsonValue}
    {value : α} (h : decodeNullable decode data = .ok (some value)) : decode data = .ok value := by
  unfold decodeNullable at h
  split at h
  · cases h
  · obtain ⟨made, read, h⟩ := bind_eq_ok h
    cases h
    exact read

/-- A snapshot that was decoded has been constructed under the current schema, with the default media
limits. -/
theorem constructed_of_decodeSnapshot {value : Fields} {snapshot : SessionSnapshot}
    (h : decodeSnapshot lib maxInlineBytes value = .ok snapshot) :
    Constructed lib snapshot ∧ snapshot.schemaVersion = 2 ∧
      ∀ contents ∈ allContents snapshot, ({} : MediaLimits).admits contents = true := by
  obtain ⟨_, -, h⟩ := bind_eq_ok h
  obtain ⟨records, -, h⟩ := bind_eq_ok h
  obtain ⟨messages, readMessages, h⟩ := bind_eq_ok h
  obtain ⟨_, -, h⟩ := bind_eq_ok h
  obtain ⟨items, -, h⟩ := bind_eq_ok h
  obtain ⟨pending, readPending, h⟩ := bind_eq_ok h
  obtain ⟨compaction, readCompaction, h⟩ := bind_eq_ok h
  iterate 2 obtain ⟨_, -, h⟩ := bind_eq_ok h
  have message : ∀ message ∈ messages, Readable lib message := by
    intro message mem
    obtain ⟨fresh, record, read⟩ := mem_of_decodeAll readMessages message mem
    exact readable_of_decodeMessage read
  have item : ∀ item ∈ pending, Readable lib (.user item.message) ∧
      receiptChecked item.receipt = true := by
    intro item mem
    obtain ⟨fresh, record, read⟩ := mem_of_decodeAll readPending item mem
    exact constructed_of_decodePending read
  split at h
  · iterate 6 obtain ⟨_, -, h⟩ := bind_eq_ok h
    split_ifs at h with frozen
    obtain ⟨rfl, checked⟩ := build_eq_ok h
    refine ⟨⟨fun m mem => (message m mem).1, fun i mem => ?_, ?_, checked⟩, rfl, ?_⟩
    · exact ⟨(item i mem).1.1, (item i mem).2⟩
    · rintro summary rfl
      exact checked_of_decodeCompaction (decodeNullable_eq_some readCompaction)
    · intro contents mem
      obtain ⟨m, held, rfl⟩ | ⟨i, held, rfl⟩ := mem_allContents.mp mem
      · exact (message m held).2
      · exact (item i held).1.2
  · cases h

theorem constructed_of_decode {data : List UInt8} {snapshot : SessionSnapshot}
    (h : decode lib maxInlineBytes data = .ok snapshot) :
    Constructed lib snapshot ∧ snapshot.schemaVersion = 2 ∧
      ∀ contents ∈ allContents snapshot, ({} : MediaLimits).admits contents = true := by
  unfold decode at h
  split at h
  · cases h
  · obtain ⟨value, -, h⟩ := bind_eq_ok h
    split at h
    · split_ifs at h
      exact constructed_of_decodeSnapshot (guarded_eq_ok h)
    · cases h

end Constructed

section Loads
variable (lib : Library) (maxInlineBytes : Nat) (uuids : Nat → Nat → String)

/-- The library as one decoding finds it: every call of uuid4 draws anew. -/
def drawn (n : Nat) : Library := { lib with uuid4 := uuids n }

/-- A record under its key, and how many records have been decoded so far. -/
structure Records where
  record : Option (List UInt8)
  draws : Nat := 0

/-- Storing what an older record was upgraded to. -/
def storeMigrated (data : List UInt8) (snapshot : SessionSnapshot) : Program Records Raised Unit := do
  if ← raising (needsMigration lib data) then
    let encoded ← raising (encode lib maxInlineBytes snapshot)
    modify fun s => { s with record := some encoded }
  else pure ()

/-- InMemorySessionRepository.load. Nothing is awaited while the lock is held. -/
def loadInMemory (sessionId : String) : Program Records Raised (Option SessionSnapshot) := do
  let s ← get
  match s.record with
  | none => pure none
  | some data => do
    set { s with draws := s.draws + 1 }
    let snapshot ← raising (decode (drawn lib uuids s.draws) maxInlineBytes data)
    storeMigrated lib maxInlineBytes data snapshot
    raising (checkLoadedSessionId snapshot sessionId)
    pure (some snapshot)

/-- The repository in memory with the snapshots its loads have returned. -/
structure InMemory where
  store : Records
  returned : List SessionSnapshot := []

/-- One load by any handle. -/
def stepInMemory (sessionId : String) (m : InMemory) (_ : Unit) : Option InMemory :=
  let (result, store) := exec (loadInMemory lib maxInlineBytes uuids sessionId) m.store
  match result with
  | .ok (some snapshot) => some { store, returned := m.returned ++ [snapshot] }
  | _ => some { m with store }

/-- Where a thread is that loads from the local repository. -/
inductive Stage
  | idle
  | read (data : List UInt8)
  | waiting
  | writing (snapshot : SessionSnapshot) (encoded : List UInt8)
  | replaced (snapshot : SessionSnapshot)
  | ended

/-- The file of a key, the thread that holds its lock exclusively, the threads that load, and what
their loads have returned. A shared lock is held within one step only. -/
structure Local where
  target : Option (List UInt8)
  holder : Option Nat := none
  draws : Nat := 0
  threads : Nat → Stage := fun _ => .idle
  returned : List SessionSnapshot := []

namespace Local

variable (w : Local)

def enter (t : Nat) (stage : Stage) : Local :=
  { w with threads := Function.update w.threads t stage }

/-- The load of a thread returns or raises; a lock it holds is released. -/
def leave (t : Nat) (result : Option SessionSnapshot) : Local :=
  { w with
    threads := Function.update w.threads t .ended
    holder := if w.holder = some t then none else w.holder
    returned := w.returned ++ result.toList }

def decoded (data : List UInt8) (sessionId : String) : Result SessionSnapshot := do
  let snapshot ← decode (drawn lib uuids w.draws) maxInlineBytes data
  checkLoadedSessionId snapshot sessionId
  .ok snapshot

/-- A load that needs no migration, past the shared lock. -/
def loadCurrent (t : Nat) (data : List UInt8) (sessionId : String) : Local :=
  match w.decoded lib maxInlineBytes uuids data sessionId with
  | .ok snapshot => { w with draws := w.draws + 1 }.leave t (some snapshot)
  | .error _ => { w with draws := w.draws + 1 }.leave t none

/-- The second reading, under the exclusive lock, up to the write of the migrated record. -/
def loadExclusive (t : Nat) (data : List UInt8) (sessionId : String) : Local :=
  let w' := { w with draws := w.draws + 1 }
  match w.decoded lib maxInlineBytes uuids data sessionId with
  | .error _ => w'.leave t none
  | .ok snapshot =>
    match needsMigration lib data with
    | .error _ => w'.leave t none
    | .ok false => w'.leave t (some snapshot)
    | .ok true =>
      match encode lib maxInlineBytes snapshot with
      | .error _ => w'.leave t none
      | .ok encoded => { w' with holder := some t }.enter t (.writing snapshot encoded)

end Local

/-- A thread reads under the shared lock, looks whether the record must be migrated, reads again under
the exclusive one, replaces the file and syncs its directory. It may fail or die at any point. -/
inductive LoadAction
  | readShared (t : Nat)
  | look (t : Nat)
  | readExclusive (t : Nat)
  | replace (t : Nat)
  | sync (t : Nat)
  | fault (t : Nat)

def stepLocal (sessionId : String) (w : Local) : LoadAction → Option Local
  | .readShared t =>
    match w.threads t, w.holder with
    | .idle, none =>
      match w.target with
      | none => some (w.leave t none)
      | some data => some (w.enter t (.read data))
    | _, _ => none
  | .look t =>
    match w.threads t with
    | .read data =>
      match needsMigration lib data with
      | .error _ => some (w.leave t none)
      | .ok true => some (w.enter t .waiting)
      | .ok false => some (w.loadCurrent lib maxInlineBytes uuids t data sessionId)
    | _ => none
  | .readExclusive t =>
    match w.threads t, w.holder with
    | .waiting, none =>
      match w.target with
      | none => some (w.leave t none)
      | some data => some (w.loadExclusive lib maxInlineBytes uuids t data sessionId)
    | _, _ => none
  | .replace t =>
    match w.threads t with
    | .writing snapshot encoded =>
      some ({ w with target := some encoded }.enter t (.replaced snapshot))
    | _ => none
  | .sync t =>
    match w.threads t with
    | .replaced snapshot => some (w.leave t (some snapshot))
    | _ => none
  | .fault t => some (w.leave t none)

end Loads

section Once
variable {lib : Library} {maxInlineBytes : Nat} {uuids : Nat → Nat → String}

/-- A record of the current schema that every decoding reads in one way. -/
structure Migrated (lib : Library) (maxInlineBytes : Nat) (uuids : Nat → Nat → String)
    (data : List UInt8) (snapshot : SessionSnapshot) : Prop where
  current : needsMigration lib data = .ok false
  decodes : ∀ n, decode (drawn lib uuids n) maxInlineBytes data = .ok snapshot

/-- What was decoded and encoded again is decoded to the same snapshot, its message ids included. -/
theorem migrated_of_encode (correct : lib.Correct) {n : Nat} {data encoded : List UInt8}
    {snapshot : SessionSnapshot}
    (decoded : decode (drawn lib uuids n) maxInlineBytes data = .ok snapshot)
    (written : encode lib maxInlineBytes snapshot = .ok encoded) :
    Migrated lib maxInlineBytes uuids encoded snapshot := by
  obtain ⟨constructed, schema, admitted⟩ := constructed_of_decode decoded
  obtain ⟨value, built, dumped⟩ := bind_eq_ok written
  have loaded := loads_dumped correct dumped
  have round (m : Nat) : ∃ entries, value = .obj entries ∧
      getField (sorted entries) "schema_version" = .int 2 ∧
      decodeSnapshot (drawn lib uuids m) maxInlineBytes (sorted entries) = .ok snapshot :=
    @decodeSnapshot_round_trip (drawn lib uuids m) _ ⟨correct.base64, correct.json⟩ _ _
      ⟨constructed.messages, constructed.pending, constructed.compaction, constructed.snapshot⟩
      schema admitted built
  obtain ⟨entries, rfl, version, -⟩ := round 0
  constructor
  · rw [needsMigration, rawSchemaVersion, loaded, sortKeys_obj]
    simp only [version]
    rfl
  · intro m
    obtain ⟨entries', same, version', read⟩ := round m
    cases same
    have read_eq : decode (drawn lib uuids m) maxInlineBytes encoded =
        guarded "Invalid Session snapshot."
          (decodeSnapshot (drawn lib uuids m) maxInlineBytes (sorted entries)) :=
      decode_loaded loaded version'
    rw [read_eq, read]
    rfl

/-- The record is the old one, and nothing was returned; or it was migrated to a snapshot, the only
one that was ever returned. -/
def Settled (lib : Library) (maxInlineBytes : Nat) (uuids : Nat → Nat → String)
    (first : List UInt8) (m : InMemory) : Prop :=
  m.store.record = some first ∧ m.returned = [] ∨
    ∃ data snapshot, m.store.record = some data ∧
      Migrated lib maxInlineBytes uuids data snapshot ∧ ∀ other ∈ m.returned, other = snapshot

variable {first : List UInt8}

theorem exec_storeMigrated {data : List UInt8} {snapshot : SessionSnapshot} {migrates : Bool}
    (needed : needsMigration lib data = .ok migrates) (s : Records) :
    exec (storeMigrated lib maxInlineBytes data snapshot) s =
      if migrates then
        match encode lib maxInlineBytes snapshot with
        | .ok encoded => (.ok (), { s with record := some encoded })
        | .error raised => (.error raised, s)
      else (.ok (), s) := by
  rw [storeMigrated, exec_bind, exec_raising, needed]
  cases migrates with
  | false => rfl
  | true =>
    simp only [if_true, exec_bind, exec_raising]
    cases encode lib maxInlineBytes snapshot <;> rfl

/-- A load of a migrated record leaves it alone, and returns its snapshot if any. -/
theorem load_migrated {data : List UInt8} {snapshot : SessionSnapshot}
    (migrated : Migrated lib maxInlineBytes uuids data snapshot) (sessionId : String) (draws : Nat) :
    exec (loadInMemory lib maxInlineBytes uuids sessionId) ⟨some data, draws⟩ =
      ((checkLoadedSessionId snapshot sessionId).map fun _ => some snapshot,
        ⟨some data, draws + 1⟩) := by
  simp only [loadInMemory, exec_bind, exec_get, exec_set, exec_raising, migrated.decodes,
    exec_storeMigrated migrated.current]
  cases checkLoadedSessionId snapshot sessionId <;> rfl

/-- A load of the old record leaves it alone and returns nothing, or migrates it. -/
theorem load_old (correct : lib.Correct) (old : needsMigration lib first = .ok true)
    (sessionId : String) (draws : Nat) :
    (∃ raised, exec (loadInMemory lib maxInlineBytes uuids sessionId) ⟨some first, draws⟩ =
      (.error raised, ⟨some first, draws + 1⟩)) ∨
    ∃ data snapshot, Migrated lib maxInlineBytes uuids data snapshot ∧
      exec (loadInMemory lib maxInlineBytes uuids sessionId) ⟨some first, draws⟩ =
        ((checkLoadedSessionId snapshot sessionId).map fun _ => some snapshot,
          ⟨some data, draws + 1⟩) := by
  cases decoded : decode (drawn lib uuids draws) maxInlineBytes first with
  | error raised =>
    refine .inl ⟨raised, ?_⟩
    simp only [loadInMemory, exec_bind, exec_get, exec_set, exec_raising, decoded]
  | ok snapshot =>
    cases written : encode lib maxInlineBytes snapshot with
    | error raised =>
      refine .inl ⟨raised, ?_⟩
      simp only [loadInMemory, exec_bind, exec_get, exec_set, exec_raising, decoded,
        exec_storeMigrated old, written, if_true]
    | ok data =>
      refine .inr ⟨data, snapshot, migrated_of_encode correct decoded written, ?_⟩
      simp only [loadInMemory, exec_bind, exec_get, exec_set, exec_raising, decoded,
        exec_storeMigrated old, written, if_true]
      cases checkLoadedSessionId snapshot sessionId <;> rfl

/-- The end of a load that left a migrated record and returned at most its snapshot. -/
theorem settled_loaded {data : List UInt8} {snapshot : SessionSnapshot}
    (migrated : Migrated lib maxInlineBytes uuids data snapshot) {sessionId : String}
    {m m' : InMemory} {draws : Nat} (same : ∀ other ∈ m.returned, other = snapshot)
    (loaded : exec (loadInMemory lib maxInlineBytes uuids sessionId) m.store =
      ((checkLoadedSessionId snapshot sessionId).map fun _ => some snapshot, ⟨some data, draws⟩))
    (stepped : stepInMemory lib maxInlineBytes uuids sessionId m () = some m') :
    Settled lib maxInlineBytes uuids first m' := by
  rw [stepInMemory, loaded] at stepped
  cases checked : checkLoadedSessionId snapshot sessionId with
  | error raised =>
    rw [checked] at stepped
    cases stepped
    exact .inr ⟨data, snapshot, rfl, migrated, same⟩
  | ok _ =>
    rw [checked] at stepped
    cases stepped
    refine .inr ⟨data, snapshot, rfl, migrated, fun other mem => ?_⟩
    obtain old | new := List.mem_append.mp mem
    · exact same other old
    · exact List.mem_singleton.mp new

theorem settled_step (correct : lib.Correct) (old : needsMigration lib first = .ok true)
    {sessionId : String} {m m' : InMemory} (h : Settled lib maxInlineBytes uuids first m)
    (stepped : stepInMemory lib maxInlineBytes uuids sessionId m () = some m') :
    Settled lib maxInlineBytes uuids first m' := by
  obtain ⟨⟨record, draws⟩, returned⟩ := m
  obtain ⟨rfl, rfl⟩ | ⟨data, snapshot, rfl, migrated, same⟩ := h
  · obtain ⟨raised, loaded⟩ | ⟨data, snapshot, migrated, loaded⟩ :=
      @load_old _ _ uuids _ correct old sessionId draws
    · rw [stepInMemory, loaded] at stepped
      cases stepped
      exact .inl ⟨rfl, rfl⟩
    · exact settled_loaded migrated (List.forall_mem_nil _) loaded stepped
  · exact settled_loaded migrated same (load_migrated migrated sessionId draws) stepped

/-- The local repository before the old file is replaced. -/
structure Before (lib : Library) (maxInlineBytes : Nat) (uuids : Nat → Nat → String)
    (first : List UInt8) (w : Local) : Prop where
  target : w.target = some first
  returned : w.returned = []
  read : ∀ t data, w.threads t = .read data → data = first
  writing : ∀ t snapshot encoded, w.threads t = .writing snapshot encoded →
    w.holder = some t ∧ Migrated lib maxInlineBytes uuids encoded snapshot
  unreplaced : ∀ t snapshot, w.threads t ≠ .replaced snapshot

/-- After it was replaced by a record that was migrated to this snapshot. -/
structure After (lib : Library) (maxInlineBytes : Nat) (uuids : Nat → Nat → String)
    (first : List UInt8) (snapshot : SessionSnapshot) (w : Local) : Prop where
  target : ∃ data, w.target = some data ∧ Migrated lib maxInlineBytes uuids data snapshot
  returned : ∀ other ∈ w.returned, other = snapshot
  read : ∀ t data, w.threads t = .read data →
    data = first ∨ Migrated lib maxInlineBytes uuids data snapshot
  unwritten : ∀ t other encoded, w.threads t ≠ .writing other encoded
  replaced : ∀ t other, w.threads t = .replaced other → other = snapshot

section Steps
variable {w w' : Local} {t : Nat}

theorem found_enter {stage stage' : Stage} {t' : Nat} (found : (w.enter t stage).threads t' = stage') :
    t' = t ∧ stage = stage' ∨ t' ≠ t ∧ w.threads t' = stage' := by
  have found : Function.update w.threads t stage t' = stage' := found
  rw [Function.update_apply] at found
  split_ifs at found with here
  · exact .inl ⟨here, found⟩
  · exact .inr ⟨here, found⟩

theorem found_leave {result : Option SessionSnapshot} {stage : Stage} {t' : Nat}
    (found : (w.leave t result).threads t' = stage) :
    stage = .ended ∨ t' ≠ t ∧ w.threads t' = stage := by
  have found : Function.update w.threads t .ended t' = stage := found
  rw [Function.update_apply] at found
  split_ifs at found with here
  · exact .inl found.symm
  · exact .inr ⟨here, found⟩

theorem Before.leave (h : Before lib maxInlineBytes uuids first w) :
    Before lib maxInlineBytes uuids first (w.leave t none) where
  target := h.target
  returned := by rw [Local.leave, h.returned]; rfl
  read t' data found := by
    obtain never | ⟨-, found⟩ := found_leave found
    · cases never
    · exact h.read t' data found
  writing t' snapshot encoded found := by
    obtain never | ⟨other, found⟩ := found_leave found
    · cases never
    · obtain ⟨holder, migrated⟩ := h.writing t' snapshot encoded found
      refine ⟨?_, migrated⟩
      rw [Local.leave, holder, if_neg fun same => other (Option.some.inj same)]
  unreplaced t' snapshot found := by
    obtain never | ⟨-, found⟩ := found_leave found
    · cases never
    · exact h.unreplaced t' snapshot found

theorem Before.enter (h : Before lib maxInlineBytes uuids first w) {stage : Stage}
    (stages : stage = .waiting ∨ stage = .read first) :
    Before lib maxInlineBytes uuids first (w.enter t stage) where
  target := h.target
  returned := h.returned
  read t' data found := by
    obtain ⟨-, same⟩ | ⟨-, found⟩ := found_enter found
    · obtain rfl | rfl := stages <;> cases same
      rfl
    · exact h.read t' data found
  writing t' snapshot encoded found := by
    obtain ⟨-, same⟩ | ⟨-, found⟩ := found_enter found
    · obtain rfl | rfl := stages <;> cases same
    · exact h.writing t' snapshot encoded found
  unreplaced t' snapshot found := by
    obtain ⟨-, same⟩ | ⟨-, found⟩ := found_enter found
    · obtain rfl | rfl := stages <;> cases same
    · exact h.unreplaced t' snapshot found

theorem Before.draw (h : Before lib maxInlineBytes uuids first w) (draws : Nat) :
    Before lib maxInlineBytes uuids first { w with draws } :=
  ⟨h.target, h.returned, h.read, h.writing, h.unreplaced⟩

variable {snapshot : SessionSnapshot}

theorem After.leave (h : After lib maxInlineBytes uuids first snapshot w)
    {result : Option SessionSnapshot} (same : ∀ other, result = some other → other = snapshot) :
    After lib maxInlineBytes uuids first snapshot (w.leave t result) where
  target := h.target
  returned other mem := by
    obtain old | new := List.mem_append.mp mem
    · exact h.returned other old
    · exact same other (Option.mem_toList.mp new)
  read t' data found := by
    obtain never | ⟨-, found⟩ := found_leave found
    · cases never
    · exact h.read t' data found
  unwritten t' other encoded found := by
    obtain never | ⟨-, found⟩ := found_leave found
    · cases never
    · exact h.unwritten t' other encoded found
  replaced t' other found := by
    obtain never | ⟨-, found⟩ := found_leave found
    · cases never
    · exact h.replaced t' other found

theorem After.enter (h : After lib maxInlineBytes uuids first snapshot w) {stage : Stage}
    (stages : stage = .waiting ∨
      ∃ data, stage = .read data ∧ Migrated lib maxInlineBytes uuids data snapshot) :
    After lib maxInlineBytes uuids first snapshot (w.enter t stage) where
  target := h.target
  returned := h.returned
  read t' data found := by
    obtain ⟨-, same⟩ | ⟨-, found⟩ := found_enter found
    · obtain rfl | ⟨_, rfl, migrated⟩ := stages <;> cases same
      exact .inr migrated
    · exact h.read t' data found
  unwritten t' other encoded found := by
    obtain ⟨-, same⟩ | ⟨-, found⟩ := found_enter found
    · obtain rfl | ⟨_, rfl, -⟩ := stages <;> cases same
    · exact h.unwritten t' other encoded found
  replaced t' other found := by
    obtain ⟨-, same⟩ | ⟨-, found⟩ := found_enter found
    · obtain rfl | ⟨_, rfl, -⟩ := stages <;> cases same
    · exact h.replaced t' other found

theorem After.draw (h : After lib maxInlineBytes uuids first snapshot w) (draws : Nat) :
    After lib maxInlineBytes uuids first snapshot { w with draws } :=
  ⟨h.target, h.returned, h.read, h.unwritten, h.replaced⟩

/-- Decoding a migrated record gives its snapshot, or the key does not match. -/
theorem decoded_migrated {data : List UInt8} {sessionId : String} {other : SessionSnapshot}
    (migrated : Migrated lib maxInlineBytes uuids data snapshot)
    (decoded : w.decoded lib maxInlineBytes uuids data sessionId = .ok other) :
    other = snapshot := by
  rw [Local.decoded, migrated.decodes, ok_bind] at decoded
  obtain ⟨-, -, decoded⟩ := bind_eq_ok decoded
  exact (Except.ok.inj decoded).symm

/-- The thread that takes the lock is the only one that writes. -/
theorem Before.write (h : Before lib maxInlineBytes uuids first w) (free : w.holder = none)
    {encoded : List UInt8} (migrated : Migrated lib maxInlineBytes uuids encoded snapshot) :
    Before lib maxInlineBytes uuids first
      ({ w with holder := some t }.enter t (.writing snapshot encoded)) where
  target := h.target
  returned := h.returned
  read t' data found := by
    obtain ⟨-, same⟩ | ⟨-, found⟩ := found_enter found
    · cases same
    · exact h.read t' data found
  writing t' other encoded' found := by
    obtain ⟨rfl, same⟩ | ⟨-, found⟩ := found_enter found
    · cases same
      exact ⟨rfl, migrated⟩
    · cases free.symm.trans (h.writing t' other encoded' found).1
  unreplaced t' other found := by
    obtain ⟨-, same⟩ | ⟨-, found⟩ := found_enter found
    · cases same
    · exact h.unreplaced t' other found

theorem Before.loadExclusive (correct : lib.Correct) (old : needsMigration lib first = .ok true)
    (h : Before lib maxInlineBytes uuids first w) (free : w.holder = none) (sessionId : String) :
    Before lib maxInlineBytes uuids first
      (w.loadExclusive lib maxInlineBytes uuids t first sessionId) := by
  rw [Local.loadExclusive, old]
  cases decoded : w.decoded lib maxInlineBytes uuids first sessionId with
  | error _ => exact (h.draw _).leave
  | ok snapshot =>
    dsimp only
    cases written : encode lib maxInlineBytes snapshot with
    | error _ => exact (h.draw _).leave
    | ok encoded =>
      obtain ⟨made, read, decoded⟩ := bind_eq_ok decoded
      obtain ⟨-, -, decoded⟩ := bind_eq_ok decoded
      cases decoded
      exact (h.draw (w.draws + 1)).write free (migrated_of_encode correct read written)

/-- Replacing the file: no other thread is writing. -/
theorem Before.replace (h : Before lib maxInlineBytes uuids first w) {encoded : List UInt8}
    (writing : w.threads t = .writing snapshot encoded) :
    After lib maxInlineBytes uuids first snapshot
      ({ w with target := some encoded }.enter t (.replaced snapshot)) where
  target := ⟨encoded, rfl, (h.writing t snapshot encoded writing).2⟩
  returned other mem := by
    have mem : other ∈ w.returned := mem
    rw [h.returned] at mem
    cases mem
  read t' data found := by
    obtain ⟨-, same⟩ | ⟨-, found⟩ := found_enter found
    · cases same
    · exact .inl (h.read t' data found)
  unwritten t' other encoded' found := by
    obtain ⟨-, same⟩ | ⟨different, found⟩ := found_enter found
    · cases same
    · have holder := (h.writing t' other encoded' found).1
      rw [(h.writing t snapshot encoded writing).1] at holder
      exact different (Option.some.inj holder).symm
  replaced t' other found := by
    obtain ⟨-, same⟩ | ⟨-, found⟩ := found_enter found
    · cases same
      rfl
    · exact absurd found (h.unreplaced t' other)

theorem After.loadCurrent (h : After lib maxInlineBytes uuids first snapshot w)
    {data : List UInt8} (migrated : Migrated lib maxInlineBytes uuids data snapshot)
    (sessionId : String) : After lib maxInlineBytes uuids first snapshot
      (w.loadCurrent lib maxInlineBytes uuids t data sessionId) := by
  unfold Local.loadCurrent
  split
  · rename_i other decoded
    refine (h.draw _).leave fun made same => ?_
    cases same
    exact decoded_migrated migrated decoded
  · exact (h.draw _).leave nofun

theorem After.loadExclusive (h : After lib maxInlineBytes uuids first snapshot w)
    {data : List UInt8} (migrated : Migrated lib maxInlineBytes uuids data snapshot)
    (sessionId : String) : After lib maxInlineBytes uuids first snapshot
      (w.loadExclusive lib maxInlineBytes uuids t data sessionId) := by
  rw [Local.loadExclusive, migrated.current]
  cases decoded : w.decoded lib maxInlineBytes uuids data sessionId with
  | error _ => exact (h.draw _).leave nofun
  | ok other =>
    refine (h.draw _).leave fun made same => ?_
    cases same
    exact decoded_migrated migrated decoded

theorem before_step (correct : lib.Correct) (old : needsMigration lib first = .ok true)
    {sessionId : String} {a : LoadAction} (h : Before lib maxInlineBytes uuids first w)
    (stepped : stepLocal lib maxInlineBytes uuids sessionId w a = some w') :
    Before lib maxInlineBytes uuids first w' ∨
      ∃ snapshot, After lib maxInlineBytes uuids first snapshot w' := by
  cases a with
  | readShared t =>
    simp only [stepLocal, h.target] at stepped
    split at stepped
    · cases stepped
      exact .inl (h.enter (.inr rfl))
    · cases stepped
  | look t =>
    simp only [stepLocal] at stepped
    split at stepped
    · rename_i data reading
      rw [h.read t data reading, old] at stepped
      cases stepped
      exact .inl (h.enter (.inl rfl))
    · cases stepped
  | readExclusive t =>
    simp only [stepLocal, h.target] at stepped
    split at stepped
    · rename_i free
      cases stepped
      exact .inl (h.loadExclusive correct old free sessionId)
    · cases stepped
  | replace t =>
    simp only [stepLocal] at stepped
    split at stepped
    · rename_i snapshot encoded writing
      cases stepped
      exact .inr ⟨snapshot, h.replace writing⟩
    · cases stepped
  | sync t =>
    simp only [stepLocal] at stepped
    split at stepped
    · rename_i snapshot replaced
      exact absurd replaced (h.unreplaced t snapshot)
    · cases stepped
  | fault t =>
    cases stepped
    exact .inl h.leave

theorem after_step (old : needsMigration lib first = .ok true) {sessionId : String}
    {a : LoadAction} (h : After lib maxInlineBytes uuids first snapshot w)
    (stepped : stepLocal lib maxInlineBytes uuids sessionId w a = some w') :
    After lib maxInlineBytes uuids first snapshot w' := by
  obtain ⟨stored, target, migrated⟩ := h.target
  cases a with
  | readShared t =>
    simp only [stepLocal, target] at stepped
    split at stepped
    · cases stepped
      exact h.enter (.inr ⟨stored, rfl, migrated⟩)
    · cases stepped
  | look t =>
    simp only [stepLocal] at stepped
    split at stepped
    · rename_i data reading
      obtain rfl | current := h.read t data reading
      · rw [old] at stepped
        cases stepped
        exact h.enter (.inl rfl)
      · rw [current.current] at stepped
        cases stepped
        exact h.loadCurrent current sessionId
    · cases stepped
  | readExclusive t =>
    simp only [stepLocal, target] at stepped
    split at stepped
    · cases stepped
      exact h.loadExclusive migrated sessionId
    · cases stepped
  | replace t =>
    simp only [stepLocal] at stepped
    split at stepped
    · rename_i other encoded writing
      exact absurd writing (h.unwritten t other encoded)
    · cases stepped
  | sync t =>
    simp only [stepLocal] at stepped
    split at stepped
    · rename_i other replaced
      cases stepped
      refine h.leave fun made same => ?_
      cases same
      exact h.replaced t _ replaced
    · cases stepped
  | fault t =>
    cases stepped
    exact h.leave nofun

end Steps

/-- Whatever the interleaving of the loads and wherever they fail, the loads of an old record that
return a snapshot all return the same one, with the same message ids. -/
theorem migration_once (correct : lib.Correct) (old : rawSchemaVersion lib first = .ok 1)
    (sessionId : String) :
    (∀ loads m, run (stepInMemory lib maxInlineBytes uuids sessionId)
        { store := { record := some first } } loads = some m →
      ∀ a ∈ m.returned, ∀ b ∈ m.returned, a = b) ∧
    ∀ actions w, run (stepLocal lib maxInlineBytes uuids sessionId)
        { target := some first } actions = some w →
      ∀ a ∈ w.returned, ∀ b ∈ w.returned, a = b := by
  have older : needsMigration lib first = .ok true := by rw [needsMigration, old]; rfl
  constructor
  · intro loads m h
    have settled : Settled lib maxInlineBytes uuids first m :=
      run_invariant_all (fun _ _ _ inv stepped => settled_step correct older inv stepped)
        (.inl ⟨rfl, rfl⟩) h
    obtain ⟨-, none⟩ | ⟨data, snapshot, -, -, same⟩ := settled
    · rw [none]
      exact List.forall_mem_nil _
    · exact fun a ha b hb => (same a ha).trans (same b hb).symm
  · intro actions w h
    have settled : Before lib maxInlineBytes uuids first w ∨
        ∃ snapshot, After lib maxInlineBytes uuids first snapshot w := by
      refine run_invariant_all (I := fun w => Before lib maxInlineBytes uuids first w ∨
        ∃ snapshot, After lib maxInlineBytes uuids first snapshot w)
        (fun u a u' inv stepped => ?_) (.inl ?_) h
      · obtain before | ⟨snapshot, after⟩ := inv
        · exact before_step correct older before stepped
        · exact .inr ⟨snapshot, after_step older after stepped⟩
      · exact ⟨rfl, rfl, nofun, nofun, nofun⟩
    obtain before | ⟨snapshot, after⟩ := settled
    · rw [before.returned]
      exact List.forall_mem_nil _
    · exact fun a ha b hb => (after.returned a ha).trans (after.returned b hb).symm

end Once

section Witness

/-- A record of the first schema: its message has no id. -/
def oldData : JsonValue :=
  .obj [("last_pending_sequence", .int 0),
    ("messages", .arr [.obj [("content", .arr [.obj [("text", .str "hi"), ("type", .str "text")]]),
      ("timestamp", .float ⟨0⟩), ("type", .str "user_message")]]),
    ("metadata", .obj [("entries", .arr []), ("type", .str "object")]), ("pending", .arr []),
    ("revision", .int 3), ("schema_version", .int 1), ("session_id", .str "s1")]

def oldText : List UInt8 :=
  ("\x7b\"last_pending_sequence\":0,\"messages\":[\x7b\"content\":[\x7b\"text\":\"hi\"," ++
  "\"type\":\"text\"\x7d],\"timestamp\":0.0,\"type\":\"user_message\"\x7d]," ++
  "\"metadata\":\x7b\"entries\":[],\"type\":\"object\"\x7d,\"pending\":[],\"revision\":3," ++
  "\"schema_version\":1,\"session_id\":\"s1\"\x7d").toUTF8.data.toList

/-- The dict encode builds of it, with the id its message was given. -/
def newData : JsonValue :=
  .obj [("schema_version", .int 2), ("session_id", .str "s1"), ("revision", .int 3),
    ("last_pending_sequence", .int 0),
    ("messages", .arr [.obj [("type", .str "user_message"), ("message_id", .str "m0"),
      ("timestamp", .float ⟨0⟩),
      ("content", .arr [.obj [("type", .str "text"), ("text", .str "hi")]])]]),
    ("pending", .arr []), ("compaction", .null),
    ("metadata", .obj [("type", .str "object"), ("entries", .arr [])])]

def newText : List UInt8 :=
  ("\x7b\"compaction\":null,\"last_pending_sequence\":0,\"messages\":[\x7b\"content\":[" ++
  "\x7b\"text\":\"hi\",\"type\":\"text\"\x7d],\"message_id\":\"m0\",\"timestamp\":0.0," ++
  "\"type\":\"user_message\"\x7d],\"metadata\":\x7b\"entries\":[],\"type\":\"object\"\x7d," ++
  "\"pending\":[],\"revision\":3,\"schema_version\":2,\"session_id\":\"s1\"\x7d"
  ).toUTF8.data.toList

/-- A library whose json knows these two texts. -/
def migrationLibrary : Library where
  urlparse _ := none
  float _ := none
  uuid4 _ := "m0"
  b64encode := Base64.encode
  b64decode := Base64.decode
  dumps value := if value = newData then some newText else none
  loads data :=
    if data = newText then some (sortKeys newData)
    else if data = oldText then some oldData else none

theorem migrationLibrary_correct : migrationLibrary.Correct where
  base64 data := Base64.decode_encoded data
  json value data dumped := by
    simp only [migrationLibrary] at dumped ⊢
    split at dumped
    · rename_i same
      cases dumped
      rw [if_pos rfl, same]
    · cases dumped

def freshIds (n : Nat) (_ : Nat) : String := if n = 1 then "m0" else "m1"

/-- Three threads find the old record; one migrates it, one fails before it has written. -/
def racingLoads : List LoadAction := [
  .readShared 0, .readShared 1, .readShared 2, .look 0, .look 1, .look 2, .readExclusive 1,
  .fault 1, .readExclusive 0, .replace 0, .sync 0]

theorem migration_once_racing :
    ∃ w, run (stepLocal migrationLibrary 8388608 freshIds "s1") { target := some oldText }
        racingLoads = some w ∧ w.returned.length = 1 ∧ ∀ a ∈ w.returned, ∀ b ∈ w.returned, a = b := by
  have returns : ((run (stepLocal migrationLibrary 8388608 freshIds "s1") { target := some oldText }
      racingLoads).map fun w => w.returned.length) = some 1 := by decide +kernel
  obtain ⟨w, ran, one⟩ := Option.map_eq_some_iff.mp returns
  have old : rawSchemaVersion migrationLibrary oldText = .ok 1 := by decide +kernel
  exact ⟨w, ran, one, (migration_once migrationLibrary_correct old "s1").2 racingLoads w ran⟩

end Witness

end RoboAgent.SchemaMigration
