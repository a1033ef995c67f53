import RoboAgent.JsonFraming

/-! The event store on a file of JSON lines: a line for each appended event, and the events of a run
read back from the lines. The writer ends a line with a line feed, and the reader ends one at every
line boundary of Unicode. The text of a float is left to the runtime. -/

namespace RoboAgent.EventLog
open RoboAgent.FrozenJson RoboAgent.JsonText RoboAgent.KeyedLists RoboAgent.JsonReader
  RoboAgent.JsonFraming

structure ExecutionLineage where
  rootRunId : String
  executionRunId : String
  scopeId : String
  parentScopeId : Option String
  scopeDepth : Nat
  agentDepth : Nat
  toolCallId : Option String
  agentToolName : Option String
  identities : rootRunId ≠ "" ∧ executionRunId ≠ "" ∧ scopeId ≠ ""
  parent : parentScopeId ≠ some ""
deriving DecidableEq

inductive Timestamp where
  | int (n : Int)
  | float (x : PyFloat)
deriving DecidableEq

/-- math.isfinite, which raises on an int beyond the floats. -/
def Timestamp.isFinite : Timestamp → Bool
  | .int n => decide (n.natAbs < 2 ^ 1024 - 2 ^ 970)
  | .float x => x.isFinite

structure AgentEvent where
  runId : String
  sequence : Nat
  type : String
  payload : FrozenJsonObject
  timestamp : Timestamp
  lineage : Option ExecutionLineage
  identity : runId ≠ "" ∧ type ≠ "" ∧ timestamp.isFinite = true
  root : ∀ l ∈ lineage, runId = l.rootRunId
deriving DecidableEq

/-! The record of an event. -/

def optionalText : Option String → JsonValue
  | none => .null
  | some s => .str s

def Timestamp.value : Timestamp → JsonValue
  | .int n => .int n
  | .float x => .float x

def ExecutionLineage.fields (l : ExecutionLineage) : List (String × JsonValue) := [
  ("root_run_id", .str l.rootRunId), ("execution_run_id", .str l.executionRunId),
  ("scope_id", .str l.scopeId), ("parent_scope_id", optionalText l.parentScopeId),
  ("scope_depth", .int l.scopeDepth), ("agent_depth", .int l.agentDepth),
  ("tool_call_id", optionalText l.toolCallId),
  ("agent_tool_name", optionalText l.agentToolName)]

def lineageValue : Option ExecutionLineage → JsonValue
  | none => .null
  | some l => .obj l.fields

def AgentEvent.fields (event : AgentEvent) : List (String × JsonValue) := [
  ("run_id", .str event.runId), ("sequence", .int event.sequence), ("type", .str event.type),
  ("payload", .obj event.payload.entries), ("timestamp", event.timestamp.value),
  ("lineage", lineageValue event.lineage)]

/-! The constructors, called with the fields of an object. -/

def text : Option JsonValue → Option String
  | some (.str s) => some s
  | _ => none

def natural : Option JsonValue → Option Nat
  | some (.int (.ofNat n)) => some n
  | _ => none

/-- A text that may be None. -/
def textOrNone : JsonValue → Option (Option String)
  | .null => some none
  | .str s => some (some s)
  | _ => none

def known (names : List String) (fields : List (String × JsonValue)) : Bool :=
  fields.all fun field => names.contains field.1

def ExecutionLineage.names : List String :=
  ["root_run_id", "execution_run_id", "scope_id", "parent_scope_id", "scope_depth", "agent_depth",
    "tool_call_id", "agent_tool_name"]

/-- The last two fields have the default None. Their types are not checked by the source; a value of
another type has no place here. -/
def ExecutionLineage.ofFields (fields : List (String × JsonValue)) : Option ExecutionLineage := do
  guard (known ExecutionLineage.names fields)
  let rootRunId ← text (fields.lookup "root_run_id")
  let executionRunId ← text (fields.lookup "execution_run_id")
  let scopeId ← text (fields.lookup "scope_id")
  let parentScopeId ← fields.lookup "parent_scope_id" >>= textOrNone
  let scopeDepth ← natural (fields.lookup "scope_depth")
  let agentDepth ← natural (fields.lookup "agent_depth")
  let toolCallId ← textOrNone ((fields.lookup "tool_call_id").getD .null)
  let agentToolName ← textOrNone ((fields.lookup "agent_tool_name").getD .null)
  if valid : (rootRunId ≠ "" ∧ executionRunId ≠ "" ∧ scopeId ≠ "") ∧ parentScopeId ≠ some "" then
    some { rootRunId, executionRunId, scopeId, parentScopeId, scopeDepth, agentDepth, toolCallId,
           agentToolName, identities := valid.1, parent := valid.2 }
  else none

/-- freeze_json_object, of None too. -/
def freezeJsonObject : JsonValue → Option FrozenJsonObject
  | .null => some ⟨[], rfl⟩
  | .obj entries =>
    if frozen : wellFormed (.obj entries) = true then some ⟨entries, frozen⟩ else none
  | _ => none

def timestampOf : JsonValue → Option Timestamp
  | .int n => some (.int n)
  | .float x => some (.float x)
  | _ => none

/-- A lineage object becomes a lineage before the event is built. -/
def lineageOf : JsonValue → Option (Option ExecutionLineage)
  | .null => some none
  | .obj fields => (ExecutionLineage.ofFields fields).map some
  | _ => none

def AgentEvent.names : List String :=
  ["run_id", "sequence", "type", "payload", "timestamp", "lineage"]

/-- The payload defaults to an empty object, the lineage to None and the timestamp to now. -/
def AgentEvent.ofFields (now : PyFloat) (fields : List (String × JsonValue)) :
    Option AgentEvent := do
  guard (known AgentEvent.names fields)
  let lineage ← lineageOf ((fields.lookup "lineage").getD .null)
  let runId ← text (fields.lookup "run_id")
  let sequence ← natural (fields.lookup "sequence")
  let type ← text (fields.lookup "type")
  let timestamp ← timestampOf ((fields.lookup "timestamp").getD (.float now))
  let payload ← freezeJsonObject ((fields.lookup "payload").getD (.obj []))
  if valid : (runId ≠ "" ∧ type ≠ "" ∧ timestamp.isFinite = true) ∧
      ∀ l ∈ lineage, runId = l.rootRunId then
    some { runId, sequence, type, payload, timestamp, lineage, identity := valid.1,
           root := valid.2 }
  else none

/-! The texts of an event. -/

def ExecutionLineage.texts (l : ExecutionLineage) : List String :=
  [l.rootRunId, l.executionRunId, l.scopeId] ++ l.parentScopeId.toList ++ l.toolCallId.toList ++
    l.agentToolName.toList

def AgentEvent.texts (event : AgentEvent) : List String :=
  event.runId :: event.type :: (JsonFraming.texts (.obj event.payload.entries) ++
    event.lineage.elim [] ExecutionLineage.texts)

/-- The line boundaries that JSON texts leave as they are. -/
def separators : List Char := ['\u0085', '\u2028', '\u2029']

/-- No text of the event has a line boundary that is written as it is. -/
def AgentEvent.Unbroken (event : AgentEvent) : Prop :=
  ∀ text ∈ event.texts, ∀ c ∈ text.toList, c ∉ separators

instance (event : AgentEvent) : Decidable event.Unbroken :=
  decidable_of_iff ((event.texts.all fun text => text.toList.all fun c =>
    !separators.contains c) = true) (by simp [AgentEvent.Unbroken])

/-! EventCodec. -/

section
variable (floatText : PyFloat → List Char) (readFloat : List Char → Option PyFloat)

/-- The line of an event; none where an integer is too long for str(). -/
def encode (event : AgentEvent) : Option (List Char) :=
  if shortInts (.obj event.fields) then some (write floatText (.obj event.fields)) else none

/-- The event of a line, read at a time; none where decode raises. -/
def decode (now : PyFloat) (line : List Char) : Option AgentEvent :=
  match loads readFloat line with
  | some (.obj fields) => AgentEvent.ofFields now fields
  | _ => none

/-! JsonlEventStore. -/

/-- append on the text of the file, if there is one. The text is written as it is. -/
def append (file : Option (List Char)) (event : AgentEvent) : Option (Option (List Char)) :=
  (encode floatText event).map fun line => some (file.getD [] ++ line ++ ['\n'])

def appendAll (events : List AgentEvent) : Option (Option (List Char)) :=
  events.foldlM (append floatText) none

/-- read_text ends every line with a line feed. -/
def universalNewlines : List Char → List Char
  | '\r' :: '\n' :: text => '\n' :: universalNewlines text
  | '\r' :: text => '\n' :: universalNewlines text
  | c :: text => c :: universalNewlines text
  | [] => []

/-- The line boundaries of str.splitlines. -/
def lineBoundaries : List Char :=
  ['\n', '\r', '\x0b', '\x0c', '\x1c', '\x1d', '\x1e', '\u0085', '\u2028', '\u2029']

def splitlines : List Char → List (List Char)
  | '\r' :: '\n' :: text => [] :: splitlines text
  | c :: text =>
    if c ∈ lineBoundaries then [] :: splitlines text
    else match splitlines text with
      | [] => [[c]]
      | line :: lines => (c :: line) :: lines
  | [] => []

/-- The clock is read again for each line; its readings are counted from the last. -/
def decodeAll (clock : Nat → PyFloat) : List (List Char) → Option (List AgentEvent)
  | [] => some []
  | line :: lines => do
    let event ← decode readFloat (clock lines.length) line
    let events ← decodeAll clock lines
    some (event :: events)

/-- The events of a run; none where list raises. -/
def list (clock : Nat → PyFloat) (file : Option (List Char)) (runId : String) :
    Option (List AgentEvent) :=
  match file with
  | none => some []
  | some text =>
    (decodeAll readFloat clock (splitlines (universalNewlines text))).map fun events =>
      events.filter fun event => event.runId == runId

end

theorem wellFormed_optionalText (s : Option String) : wellFormed (optionalText s) = true := by
  cases s <;> rfl

theorem textOrNone_optionalText (s : Option String) : textOrNone (optionalText s) = some s := by
  cases s <;> rfl

theorem ExecutionLineage.wellFormed_fields (l : ExecutionLineage) :
    wellFormed (.obj l.fields) = true := by
  have distinct : names.Nodup := by decide
  rw [wellFormed, Bool.and_eq_true, wellFormedEntries_iff]
  refine ⟨decide_eq_true distinct, ?_⟩
  simp only [fields, List.forall_mem_cons, wellFormed_optionalText]
  exact ⟨rfl, rfl, rfl, trivial, rfl, rfl, trivial, trivial, List.forall_mem_nil _⟩

theorem wellFormed_lineageValue (lineage : Option ExecutionLineage) :
    wellFormed (lineageValue lineage) = true := by
  cases lineage with
  | none => rfl
  | some l => exact l.wellFormed_fields

theorem Timestamp.wellFormed_value {timestamp : Timestamp} (finite : timestamp.isFinite = true) :
    wellFormed timestamp.value = true := by
  cases timestamp with
  | int => rfl
  | float => exact finite

/-- The record of an event is a JSON object without NaN. -/
theorem AgentEvent.wellFormed_fields (event : AgentEvent) :
    wellFormed (.obj event.fields) = true := by
  have distinct : names.Nodup := by decide
  rw [wellFormed, Bool.and_eq_true, wellFormedEntries_iff]
  refine ⟨decide_eq_true distinct, ?_⟩
  simp only [fields, List.forall_mem_cons]
  exact ⟨rfl, rfl, rfl, event.payload.frozen, Timestamp.wellFormed_value event.identity.2.2,
    wellFormed_lineageValue event.lineage, List.forall_mem_nil _⟩

theorem ExecutionLineage.ofFields_fields (l : ExecutionLineage) :
    ofFields l.fields = some l := by
  change (do
    let parentScopeId ← textOrNone (optionalText l.parentScopeId)
    let toolCallId ← textOrNone (optionalText l.toolCallId)
    let agentToolName ← textOrNone (optionalText l.agentToolName)
    if valid : (l.rootRunId ≠ "" ∧ l.executionRunId ≠ "" ∧ l.scopeId ≠ "") ∧
        parentScopeId ≠ some "" then
      some (ExecutionLineage.mk l.rootRunId l.executionRunId l.scopeId parentScopeId l.scopeDepth
        l.agentDepth toolCallId agentToolName valid.1 valid.2)
    else none) = some l
  simp only [textOrNone_optionalText, Option.bind_eq_bind, Option.bind_some]
  rw [dif_pos ⟨l.identities, l.parent⟩]

theorem lineageOf_lineageValue (lineage : Option ExecutionLineage) :
    lineageOf (lineageValue lineage) = some lineage := by
  cases lineage with
  | none => rfl
  | some l => rw [lineageValue, lineageOf, l.ofFields_fields, Option.map_some]

theorem timestampOf_value (timestamp : Timestamp) :
    timestampOf timestamp.value = some timestamp := by
  cases timestamp <;> rfl

theorem freezeJsonObject_entries (object : FrozenJsonObject) :
    freezeJsonObject (.obj object.entries) = some object := by
  rw [freezeJsonObject, dif_pos object.frozen]

theorem AgentEvent.ofFields_fields (now : PyFloat) (event : AgentEvent) :
    ofFields now event.fields = some event := by
  change (do
    let lineage ← lineageOf (lineageValue event.lineage)
    let timestamp ← timestampOf event.timestamp.value
    let payload ← freezeJsonObject (.obj event.payload.entries)
    if valid : (event.runId ≠ "" ∧ event.type ≠ "" ∧ timestamp.isFinite = true) ∧
        ∀ l ∈ lineage, event.runId = l.rootRunId then
      some (AgentEvent.mk event.runId event.sequence event.type payload timestamp lineage valid.1
        valid.2)
    else none) = some event
  simp only [lineageOf_lineageValue, timestampOf_value, freezeJsonObject_entries,
    Option.bind_eq_bind, Option.bind_some]
  rw [dif_pos ⟨event.identity, event.root⟩]

theorem universalNewlines_eq {text : List Char} (plain : '\r' ∉ text) :
    universalNewlines text = text := by
  induction text with
  | nil => rfl
  | cons c text ih =>
    rw [List.mem_cons, not_or] at plain
    rw [universalNewlines, ih plain.2]
    · rintro rest rfl _
      exact plain.1 rfl
    · rintro rfl
      exact plain.1 rfl

theorem splitlines_cons {c : Char} (other : c ≠ '\r') (text : List Char) :
    splitlines (c :: text) =
      if c ∈ lineBoundaries then [] :: splitlines text
      else match splitlines text with
        | [] => [[c]]
        | line :: lines => (c :: line) :: lines := by
  rw [splitlines]
  rintro rest rfl
  exact absurd rfl other

/-- The reader ends a line at its first boundary. -/
theorem splitlines_append {line : List Char} (plain : ∀ c ∈ line, c ∉ lineBoundaries) {c : Char}
    (boundary : c ∈ lineBoundaries) (other : c ≠ '\r') (text : List Char) :
    splitlines (line ++ c :: text) = line :: splitlines text := by
  induction line with
  | nil => rw [List.nil_append, splitlines_cons other, if_pos boundary]
  | cons d line ih =>
    rw [List.forall_mem_cons] at plain
    have return_ : d ≠ '\r' := by
      rintro rfl
      exact plain.1 (by decide)
    rw [List.cons_append, splitlines_cons return_, if_neg plain.1, ih plain.2]

section
variable {c : Char}

theorem mem_texts_optionalText (s : Option String) :
    (∃ text ∈ JsonFraming.texts (optionalText s), c ∈ text.toList) ↔
      ∃ text ∈ s.toList, c ∈ text.toList := by
  cases s <;> rfl

theorem ExecutionLineage.mem_texts (beyond : isAscii c = false) (l : ExecutionLineage) :
    (∃ text ∈ JsonFraming.texts (.obj l.fields), c ∈ text.toList) ↔
      ∃ text ∈ l.texts, c ∈ text.toList := by
  have ascii : ∀ name ∈ keys l.fields, (name.toList.all isAscii) = true := by
    change ∀ name ∈ names, _
    decide
  rw [JsonFraming.texts, mem_textsOfEntries_of_keys beyond ascii]
  simp only [fields, texts, mem_texts_optionalText, JsonFraming.texts, List.mem_append,
    List.mem_cons, List.not_mem_nil, or_and_right, exists_or, false_and, exists_false, or_false,
    false_or, or_assoc, exists_eq_left]

theorem AgentEvent.mem_texts (beyond : isAscii c = false) (event : AgentEvent) :
    (∃ text ∈ JsonFraming.texts (.obj event.fields), c ∈ text.toList) ↔
      ∃ text ∈ event.texts, c ∈ text.toList := by
  have ascii : ∀ name ∈ keys event.fields, (name.toList.all isAscii) = true := by
    change ∀ name ∈ names, _
    decide
  have time : JsonFraming.texts event.timestamp.value = [] := by
    cases event.timestamp <;> rfl
  have lineage : (∃ text ∈ JsonFraming.texts (lineageValue event.lineage), c ∈ text.toList) ↔
      ∃ text ∈ event.lineage.elim [] ExecutionLineage.texts, c ∈ text.toList := by
    cases event.lineage with
    | none => exact Iff.rfl
    | some l => exact l.mem_texts beyond
  rw [JsonFraming.texts, mem_textsOfEntries_of_keys beyond ascii]
  simp only [fields, texts, JsonFraming.texts, time, lineage, List.mem_append, List.mem_cons,
    List.not_mem_nil, or_and_right, exists_or, false_and, exists_false, or_false, false_or,
    exists_eq_left]

end

/-- Of the line boundaries only the separators can be in a line. -/
theorem boundary_cases : ∀ c ∈ lineBoundaries, c ∈ separators ∨ c.toNat < 0x20 :=
  forall_mem_of_all (by decide)

theorem isAscii_separator :
    ∀ c ∈ separators, isAscii c = false ∧ c ∈ lineBoundaries ∧ c ≠ '\r' :=
  forall_mem_of_all (by decide)

section
variable {floatText : PyFloat → List Char} {readFloat : List Char → Option PyFloat}

/-- A line is broken where a text of its event is. -/
theorem boundary_iff (correct : FloatText floatText) (event : AgentEvent) :
    (∀ c ∈ write floatText (.obj event.fields), c ∉ lineBoundaries) ↔ event.Unbroken := by
  constructor
  · intro plain text mem c has separator
    obtain ⟨beyond, boundary, -⟩ := isAscii_separator c separator
    refine plain c ?_ boundary
    rw [mem_write correct beyond _ event.wellFormed_fields, event.mem_texts beyond]
    exact ⟨text, mem, has⟩
  · intro unbroken c written boundary
    obtain separator | control := boundary_cases c boundary
    · obtain ⟨beyond, -⟩ := isAscii_separator c separator
      rw [mem_write correct beyond _ event.wellFormed_fields, event.mem_texts beyond] at written
      obtain ⟨text, mem, has⟩ := written
      exact unbroken text mem c has separator
    · have printable := printable_write correct event.wellFormed_fields c written
      omega

theorem decode_write (correct : FloatReader floatText readFloat) (now : PyFloat)
    {event : AgentEvent} (short : shortInts (.obj event.fields) = true) :
    decode readFloat now (write floatText (.obj event.fields)) = some event := by
  rw [decode, loads_write correct event.wellFormed_fields short]
  exact event.ofFields_fields now

/-- What was appended: each event could be written, and the file goes on with its line. -/
theorem append_cases {file file' : Option (List Char)} {event : AgentEvent}
    (appended : append floatText file event = some file') :
    shortInts (.obj event.fields) = true ∧ file'.getD [] =
      file.getD [] ++ (write floatText (.obj event.fields) ++ ['\n']) := by
  obtain ⟨line, encoded, rfl⟩ := Option.map_eq_some_iff.mp appended
  rw [encode] at encoded
  split_ifs at encoded with short
  cases encoded
  exact ⟨short, List.append_assoc ..⟩

theorem appendAll_cases {events : List AgentEvent} {file file' : Option (List Char)}
    (appended : events.foldlM (append floatText) file = some file') :
    (∀ event ∈ events, shortInts (.obj event.fields) = true) ∧ file'.getD [] = file.getD [] ++
      events.flatMap fun event => write floatText (.obj event.fields) ++ ['\n'] := by
  induction events generalizing file with
  | nil =>
    cases appended
    exact ⟨List.forall_mem_nil _, (List.append_nil _).symm⟩
  | cons event events ih =>
    rw [List.foldlM_cons] at appended
    obtain ⟨middle, first, later⟩ := Option.bind_eq_some_iff.mp appended
    obtain ⟨short, line⟩ := append_cases first
    obtain ⟨shorts, lines⟩ := ih later
    refine ⟨List.forall_mem_cons.mpr ⟨short, shorts⟩, ?_⟩
    rw [List.flatMap_cons, ← List.append_assoc, ← line]
    exact lines

/-- Events without a separator are all read back. -/
theorem decodeAll_unbroken (correct : FloatReader floatText readFloat) (clock : Nat → PyFloat)
    {events : List AgentEvent} (short : ∀ event ∈ events, shortInts (.obj event.fields) = true)
    (unbroken : ∀ event ∈ events, event.Unbroken) :
    decodeAll readFloat clock (splitlines (events.flatMap fun event =>
      write floatText (.obj event.fields) ++ ['\n'])) = some events := by
  induction events with
  | nil => rfl
  | cons event events ih =>
    rw [List.forall_mem_cons] at short unbroken
    have plain := (boundary_iff correct.text event).mpr unbroken.1
    rw [List.flatMap_cons, List.append_assoc, List.singleton_append,
      splitlines_append plain (by decide) (by decide), decodeAll,
      decode_write correct _ short.1, ih short.2 unbroken.2]
    rfl

/-- The first line of an event with a separator is cut within a string. -/
theorem splitlines_broken (correct : FloatText floatText) {event : AgentEvent}
    (separated : ¬event.Unbroken) (text : List Char) :
    ∃ before lines, splitlines (write floatText (.obj event.fields) ++ text) = before :: lines ∧
      ∀ readFloat, loads readFloat before = none := by
  obtain ⟨c, boundary, before, after, whole, plain⟩ :
      ∃ c, c ∈ lineBoundaries ∧ ∃ before after,
        write floatText (.obj event.fields) = before ++ c :: after ∧
          ∀ d ∈ before, d ∉ lineBoundaries := by
    simp only [← boundary_iff correct, not_forall, not_not] at separated
    obtain ⟨d, mem, boundary⟩ := separated
    have first : ((write floatText (.obj event.fields)).find? fun c =>
        decide (c ∈ lineBoundaries)).isSome = true :=
      List.find?_isSome.mpr ⟨d, mem, decide_eq_true boundary⟩
    obtain ⟨c, found⟩ := Option.isSome_iff_exists.mp first
    obtain ⟨here, before, after, whole, plain⟩ := List.find?_eq_some_iff_append.mp found
    refine ⟨c, of_decide_eq_true here, before, after, whole, fun d part => ?_⟩
    simpa using plain d part
  have written : c ∈ write floatText (.obj event.fields) := by
    rw [whole]
    exact List.mem_append_right _ List.mem_cons_self
  have separator := (boundary_cases c boundary).resolve_right
    (Nat.not_lt.mpr (printable_write correct event.wellFormed_fields c written))
  obtain ⟨beyond, -, other⟩ := isAscii_separator c separator
  refine ⟨before, splitlines (after ++ text), ?_, fun readFloat =>
    loads_cut correct readFloat event.wellFormed_fields whole beyond⟩
  rw [whole, List.append_assoc, List.cons_append, splitlines_append plain boundary other]

theorem decodeAll_broken (correct : FloatReader floatText readFloat) (clock : Nat → PyFloat)
    {events : List AgentEvent} (short : ∀ event ∈ events, shortInts (.obj event.fields) = true)
    {broken : AgentEvent} (mem : broken ∈ events) (separated : ¬broken.Unbroken) :
    decodeAll readFloat clock (splitlines (events.flatMap fun event =>
      write floatText (.obj event.fields) ++ ['\n'])) = none := by
  induction events with
  | nil => cases mem
  | cons event events ih =>
    rw [List.forall_mem_cons] at short
    rw [List.flatMap_cons, List.append_assoc, List.singleton_append]
    by_cases unbroken : event.Unbroken
    · have plain := (boundary_iff correct.text event).mpr unbroken
      have later : broken ∈ events :=
        (List.mem_cons.mp mem).resolve_left fun same => separated (same ▸ unbroken)
      rw [splitlines_append plain (by decide) (by decide), decodeAll,
        decode_write correct _ short.1, ih short.2 later]
      rfl
    · obtain ⟨before, lines, split, never⟩ := splitlines_broken correct.text unbroken _
      rw [split, decodeAll, decode, never]
      rfl

theorem list_eq (clock : Nat → PyFloat) (file : Option (List Char)) (runId : String) :
    list readFloat clock file runId =
      (decodeAll readFloat clock (splitlines (universalNewlines (file.getD [])))).map fun events =>
        events.filter fun event => event.runId == runId := by
  cases file <;> rfl

/-- What list reads of a file that only the store wrote. -/
theorem list_appended (correct : FloatText floatText) (clock : Nat → PyFloat)
    {events : List AgentEvent} {file : Option (List Char)}
    (appended : appendAll floatText events = some file) (runId : String) :
    list readFloat clock file runId = (decodeAll readFloat clock (splitlines
      (events.flatMap fun event => write floatText (.obj event.fields) ++ ['\n']))).map
        fun events => events.filter fun event => event.runId == runId := by
  have plain : '\r' ∉ events.flatMap fun event => write floatText (.obj event.fields) ++ ['\n'] := by
    intro mem
    obtain ⟨event, -, part⟩ := List.mem_flatMap.mp mem
    obtain written | last := List.mem_append.mp part
    · exact absurd (printable_write correct event.wellFormed_fields _ written) (by decide)
    · exact absurd last (by decide)
  rw [list_eq, (appendAll_cases appended).2, Option.getD_none, List.nil_append,
    universalNewlines_eq plain]

/-- list returns the appended events of a run if and only if no text of an appended event has a line
separator that JSON leaves as it is; the run does not matter. -/
theorem listed_iff (correct : FloatReader floatText readFloat) (clock : Nat → PyFloat)
    {events : List AgentEvent} {file : Option (List Char)}
    (appended : appendAll floatText events = some file) (runId : String) :
    list readFloat clock file runId =
      some (events.filter fun event => event.runId == runId) ↔
      ∀ event ∈ events, event.Unbroken := by
  have short := (appendAll_cases appended).1
  rw [list_appended correct.text clock appended]
  constructor
  · intro listed event mem
    by_contra separated
    rw [decodeAll_broken correct clock short mem separated] at listed
    cases listed
  · intro unbroken
    rw [decodeAll_unbroken correct clock short unbroken]
    rfl

end

def one : PyFloat := ⟨0x3ff0000000000000⟩

/-- A text for each float that is the one of repr for 1.0. -/
def sampleText (x : PyFloat) : List Char :=
  if x = one then "1.0".toList else '.' :: Nat.toDigits 10 x.bits.toNat

def sampleFloat : List Char → Option PyFloat
  | '.' :: digits => some ⟨UInt64.ofNat (Nat.ofDigitChars 10 digits 0)⟩
  | text => if text = "1.0".toList then some one else none

theorem sample_reads (x : PyFloat) : sampleFloat (sampleText x) = some x := by
  rw [sampleText]
  split_ifs with first
  · rw [first]
    decide
  · rw [sampleFloat, Nat.ofDigitChars_ten_toDigits, UInt64.ofNat_toNat]

theorem sample_correct : FloatReader sampleText sampleFloat where
  text := by
    refine ⟨fun x y _ _ same => ?_, fun x _ c mem => ?_, fun x _ => ?_⟩
    · have read := sample_reads x
      rw [same, sample_reads y] at read
      exact (Option.some.inj read).symm
    · rw [sampleText] at mem
      split_ifs at mem
      · have chars : ∀ c ∈ "1.0".toList, c.isDigit = true ∨ c ∈ "-+.e".toList :=
          forall_mem_of_all (by decide)
        exact chars c mem
      · obtain rfl | digit := List.mem_cons.mp mem
        · exact .inr (by decide)
        · exact .inl (Nat.isDigit_of_mem_toDigits (by decide) (by decide) digit)
    · rw [sampleText]
      split_ifs
      · exact .inl (by decide)
      · exact .inl List.mem_cons_self
  reads x _ := sample_reads x

/-- An event of a delegated run that says a text. -/
def said (text : String) : AgentEvent where
  runId := "run"
  sequence := 3
  type := "message.completed"
  payload := ⟨[("text", .str text)], rfl⟩
  timestamp := .float one
  lineage := some {
    rootRunId := "run", executionRunId := "run", scopeId := "scope", parentScopeId := none
    scopeDepth := 0, agentDepth := 0, toolCallId := none, agentToolName := none
    identities := by decide, parent := by decide }
  identity := by
    refine ⟨by decide, by decide, ?_⟩
    change one.isFinite = true
    decide
  root := by
    rintro l ⟨⟩
    rfl

theorem listed_iff_said : ∃ file, appendAll sampleText [said "Hello", said "there"] = some file ∧
    list sampleFloat (fun _ => one) file "run" = some [said "Hello", said "there"] := by
  have unbroken : ∀ event ∈ [said "Hello", said "there"], event.Unbroken := by decide
  exact ⟨_, rfl, (listed_iff sample_correct (fun _ => one) rfl "run").mpr unbroken⟩

/-- A text with a line separator is written as it is, and then no run can be listed. -/
theorem separator_breaks_list : ∃ file, appendAll sampleText [said "one\u2028two"] = some file ∧
    list sampleFloat (fun _ => one) file "run" = none :=
  ⟨_, rfl, by decide +kernel⟩

end RoboAgent.EventLog
