import Mathlib
import RoboAgent.Contributions
import RoboAgent.JsonIdentity

/-! The execution records of a tree: what of a tool call or a summary is recorded, how its evidence
is kept within a number of bytes, and what is left of more records than there is place for. -/

namespace RoboAgent.ExecutionRecords
open RoboAgent.FrozenJson RoboAgent.SortedJson RoboAgent.ToolEffects RoboAgent.JsonText
open RoboAgent.JsonIdentity RoboAgent.Contributions

section
variable {R T : Type}

def addAll (r : Records R T) (items : List (Nat × Recorded R T)) : Records R T :=
  items.foldl (fun r item => r.append item.1 item.2) r

/-- The record of an item at its place. -/
def placed (index : Nat) (item : Nat × Recorded R T) : ExecutionRecord R T :=
  ⟨index, item.1, item.2⟩

/-- The note that there were more, if there were, in the scope of the first that found no place. -/
def overflowing (limit : Nat) (items : List (Nat × Recorded R T)) : List (ExecutionRecord R T) :=
  (items[limit - 1]?.map fun item => ⟨limit, item.1, .overflow⟩).toList

theorem overflowing_eq_nil {limit : Nat} (positive : 0 < limit) {items : List (Nat × Recorded R T)}
    (few : items.length < limit) : overflowing limit items = [] := by
  rw [overflowing, List.getElem?_eq_none (by omega)]
  rfl

/-- A record was appended while there was place, a note was in the last place, nothing after. -/
structure Kept (limit : Nat) (items : List (Nat × Recorded R T)) (r : Records R T) : Prop where
  limited : r.maxExecutionRecords = limit
  records : r.records = (items.take (limit - 1)).mapIdx placed ++ overflowing limit items
  complete : r.complete = decide (items.length < limit)
  next : items.length < limit → r.nextSequence = items.length

theorem Kept.append {limit : Nat} (positive : 0 < limit) {items : List (Nat × Recorded R T)}
    {r : Records R T} (kept : Kept limit items r) (item : Nat × Recorded R T) :
    Kept limit (items ++ [item]) (r.append item.1 item.2) := by
  obtain ⟨limited, records, complete, next⟩ := kept
  have length : (items ++ [item]).length = items.length + 1 := by
    rw [List.length_append, List.length_singleton]
  obtain few | many := lt_or_ge items.length limit
  · have all : items.take (limit - 1) = items := List.take_of_length_le (by omega)
    have filled : r.records = items.mapIdx placed := by
      rw [records, all, overflowing_eq_nil positive few, List.append_nil]
    have count : r.records.length = items.length := by rw [filled, List.length_mapIdx]
    have open_ : ¬r.complete = false := by
      rw [complete, decide_eq_true few]
      decide
    obtain room | last := lt_or_ge items.length (limit - 1)
    · rw [Records.append, if_neg open_, if_pos (by rw [count, limited]; exact room), next few]
      refine ⟨limited, ?_, ?_, fun _ => length.symm⟩
      · rw [List.take_of_length_le (by omega), overflowing_eq_nil positive (by omega),
          List.append_nil, List.mapIdx_concat, filled]
        rfl
      · rw [complete, decide_eq_true few, decide_eq_true (by omega)]
    · have here : items.length = limit - 1 := by omega
      rw [Records.append, if_neg open_, if_neg (by rw [count, limited]; omega), next few]
      refine ⟨limited, ?_, ?_, fun more => absurd more (by omega)⟩
      · dsimp only
        rw [if_neg (by rw [count, limited]; omega), List.take_append_of_le_length here.ge, all,
          overflowing, ← here, List.getElem?_concat_length, filled, here,
          Nat.sub_add_cancel positive]
        rfl
      · rw [decide_eq_false (by omega)]
  · have full : r.complete = false := by
      rw [complete, decide_eq_false (not_lt.mpr many)]
    rw [Records.append, if_pos full]
    refine ⟨limited, ?_, ?_, fun more => absurd more (by omega)⟩
    · rw [List.take_append_of_le_length (by omega), overflowing,
        List.getElem?_append_left (by omega), records, overflowing]
    · rw [full, decide_eq_false (by omega)]

theorem kept_addAll {limit : Nat} (positive : 0 < limit) (items : List (Nat × Recorded R T)) :
    Kept limit items (addAll { maxExecutionRecords := limit } items) := by
  induction items using List.reverseRecOn with
  | nil =>
    have few : ([] : List (Nat × Recorded R T)).length < limit := positive
    refine ⟨rfl, ?_, (decide_eq_true few).symm, fun _ => rfl⟩
    rw [overflowing_eq_nil positive few, List.take_nil]
    rfl
  | append_singleton items item ih =>
    rw [addAll, List.foldl_append]
    exact ih.append positive item

theorem overflowing_eq_singleton {limit : Nat} (positive : 0 < limit)
    {items : List (Nat × Recorded R T)} (many : limit ≤ items.length) :
    ∃ item ∈ items, overflowing limit items = [⟨limit, item.1, .overflow⟩] := by
  have inside : limit - 1 < items.length := by omega
  refine ⟨items[limit - 1], List.getElem_mem inside, ?_⟩
  rw [overflowing, List.getElem?_eq_getElem inside]
  rfl

theorem forall₂_mapIdx {α β : Type} {related : α → β → Prop} {make : Nat → α → β} {items : List α}
    (h : ∀ index, ∀ item ∈ items, related item (make index item)) :
    List.Forall₂ related items (items.mapIdx make) := by
  induction items generalizing make with
  | nil => exact .nil
  | cons item items ih =>
    rw [List.mapIdx_cons]
    refine .cons (h 0 item List.mem_cons_self) (ih fun index item mem => ?_)
    exact h (index + 1) item (List.mem_cons_of_mem _ mem)

/-- Numbers are used up by records that are dropped, but those that are kept go up. -/
theorem Kept.increasing {limit : Nat} (positive : 0 < limit) {items : List (Nat × Recorded R T)}
    {r : Records R T} (kept : Kept limit items r) :
    (r.records.map ExecutionRecord.sequence).Pairwise (· < ·) := by
  have places : ((items.take (limit - 1)).mapIdx placed).map ExecutionRecord.sequence =
      List.range (items.take (limit - 1)).length := by
    refine List.ext_getElem (by simp) fun index _ _ => ?_
    rw [List.getElem_map, List.getElem_mapIdx, List.getElem_range]
    rfl
  rw [kept.records, List.map_append, places]
  obtain few | many := lt_or_ge items.length limit
  · rw [overflowing_eq_nil positive few, List.map_nil, List.append_nil]
    exact List.pairwise_lt_range
  · obtain ⟨item, -, note⟩ := overflowing_eq_singleton positive many
    rw [note, List.pairwise_append]
    refine ⟨List.pairwise_lt_range, List.pairwise_singleton _ _, fun index mem last here => ?_⟩
    rw [List.map_singleton, List.mem_singleton] at here
    rw [List.mem_range, List.length_take] at mem
    change last = limit at here
    omega

end

/-- What add_tool_record is told. -/
structure ToolFacts where
  toolCallId : String
  toolName : String
  arguments : FrozenJsonObject
  argumentsPreview : Option FrozenJsonObject
  status : ExecutionRecordStatus
  errorCode : Option String
  evidence : Option FrozenJsonObject

structure ToolRecord where
  toolCallId : String
  toolName : String
  argumentsDigest : Option String
  argumentsPreview : Option FrozenJsonObject
  status : ExecutionRecordStatus
  errorCode : Option String
  evidence : Option FrozenJsonObject
deriving DecidableEq

/-- A record that is added, with its scope. -/
inductive Entry
  | tool (scope : Nat) (facts : ToolFacts)
  | summary (scope : Nat) (record : SupplementalExecutionRecord)

structure Library where
  floatText : PyFloat → List Char
  sha256 : List Char → String

section
variable (lib : Library) (maxBytes : Nat)

/-- The bytes of the canonical text; an integer of too many digits has none. -/
def jsonSize (value : FrozenJsonObject) : Option Nat :=
  if printable (.obj value.entries) then
    some (byteSize (write lib.floatText (.obj value.entries)))
  else none

def safeJsonDigest (value : FrozenJsonObject) : Option String :=
  if printable (.obj value.entries) then
    some (lib.sha256 (write lib.floatText (sortKeys (.obj value.entries))))
  else none

def boundedPreview (value : Option FrozenJsonObject) : Option FrozenJsonObject := do
  let value ← value
  let size ← jsonSize lib value
  if size ≤ maxBytes then some value else none

def envelope (digest : String) (size : Nat) : FrozenJsonObject :=
  ⟨[("omitted", .bool true), ("digest", .str digest), ("size", .int size)], by
    rw [wellFormed_obj]
    exact ⟨(by decide : ["omitted", "digest", "size"].Nodup), by simp [wellFormed]⟩⟩

def boundedEvidence (value : Option FrozenJsonObject) : Option FrozenJsonObject := do
  let value ← value
  let size ← jsonSize lib value
  if size ≤ maxBytes then some value
  else
    let digest ← safeJsonDigest lib value
    let envelope := envelope digest size
    -- A length has few digits, so the envelope has a text.
    let size ← jsonSize lib envelope
    if size ≤ maxBytes then some envelope else none

def toolRecord (facts : ToolFacts) : ToolRecord where
  toolCallId := facts.toolCallId
  toolName := facts.toolName
  argumentsDigest := safeJsonDigest lib facts.arguments
  argumentsPreview := boundedPreview lib maxBytes facts.argumentsPreview
  status := facts.status
  errorCode := facts.errorCode
  evidence := boundedEvidence lib maxBytes facts.evidence

def summaryRecord (record : SupplementalExecutionRecord) : SupplementalExecutionRecord :=
  { record with evidence := boundedEvidence lib maxBytes record.evidence }

def recorded : Entry → Nat × Recorded SupplementalExecutionRecord ToolRecord
  | .tool scope facts => (scope, .tool (toolRecord lib maxBytes facts))
  | .summary scope record => (scope, .summary (summaryRecord lib maxBytes record))

/-- The records of a tree after these were added to it. -/
def recordsOf (limit : Nat) (entries : List Entry) :
    Records SupplementalExecutionRecord ToolRecord :=
  addAll { maxExecutionRecords := limit } (entries.map (recorded lib maxBytes))

/-- What is stored for a value: itself, if its text has no more bytes than may be, or nothing. -/
def Fits (original stored : Option FrozenJsonObject) : Prop :=
  ∀ value, stored = some value →
    (∃ size, jsonSize lib value = some size ∧ size ≤ maxBytes) ∧ original = some value

/-- What is stored for evidence: itself, or an envelope with its digest and size, or nothing, and
never more bytes than there may be. -/
def Honest (original stored : Option FrozenJsonObject) : Prop :=
  ∀ value, stored = some value →
    (∃ size, jsonSize lib value = some size ∧ size ≤ maxBytes) ∧
      (original = some value ∨ ∃ omitted digest size, original = some omitted ∧
        safeJsonDigest lib omitted = some digest ∧ jsonSize lib omitted = some size ∧
        value = envelope digest size)

/-- The record is of the entry, with preview and evidence within their bounds. -/
def RecordOf (entry : Entry)
    (record : ExecutionRecord SupplementalExecutionRecord ToolRecord) : Prop :=
  match entry, record.recorded with
  | .tool scope facts, .tool stored =>
    record.scopeId = scope ∧ stored.toolCallId = facts.toolCallId ∧
      stored.toolName = facts.toolName ∧
      stored.argumentsDigest = safeJsonDigest lib facts.arguments ∧
      stored.status = facts.status ∧ stored.errorCode = facts.errorCode ∧
      Fits lib maxBytes facts.argumentsPreview stored.argumentsPreview ∧
      Honest lib maxBytes facts.evidence stored.evidence
  | .summary scope told, .summary stored =>
    record.scopeId = scope ∧ stored.status = told.status ∧ stored.errorCode = told.errorCode ∧
      Honest lib maxBytes told.evidence stored.evidence
  | _, _ => False

end

section
variable {lib : Library} {maxBytes : Nat}

theorem boundedPreview_fits (value : Option FrozenJsonObject) :
    Fits lib maxBytes value (boundedPreview lib maxBytes value) := by
  intro stored h
  obtain ⟨original, rfl, h⟩ := Option.bind_eq_some_iff.mp h
  obtain ⟨size, sized, h⟩ := Option.bind_eq_some_iff.mp h
  split_ifs at h with small
  cases h
  exact ⟨⟨size, sized, small⟩, rfl⟩

theorem boundedEvidence_honest (value : Option FrozenJsonObject) :
    Honest lib maxBytes value (boundedEvidence lib maxBytes value) := by
  intro stored h
  obtain ⟨original, rfl, h⟩ := Option.bind_eq_some_iff.mp h
  obtain ⟨size, sized, h⟩ := Option.bind_eq_some_iff.mp h
  split_ifs at h with small
  · cases h
    exact ⟨⟨size, sized, small⟩, .inl rfl⟩
  · obtain ⟨digest, digested, h⟩ := Option.bind_eq_some_iff.mp h
    obtain ⟨bytes, fits, h⟩ := Option.bind_eq_some_iff.mp h
    split_ifs at h with within
    cases h
    exact ⟨⟨bytes, fits, within⟩, .inr ⟨original, digest, size, rfl, digested, sized, rfl⟩⟩

theorem recordOf_recorded (index : Nat) (entry : Entry) :
    RecordOf lib maxBytes entry (placed index (recorded lib maxBytes entry)) := by
  cases entry with
  | tool scope facts =>
    exact ⟨rfl, rfl, rfl, rfl, rfl, rfl, boundedPreview_fits _, boundedEvidence_honest _⟩
  | summary scope record => exact ⟨rfl, rfl, rfl, boundedEvidence_honest _⟩

theorem recordsOf_append {limit : Nat} (entries : List Entry) (entry : Entry) :
    recordsOf lib maxBytes limit (entries ++ [entry]) =
      (recordsOf lib maxBytes limit entries).append (recorded lib maxBytes entry).1
        (recorded lib maxBytes entry).2 := by
  rw [recordsOf, List.map_append, addAll, List.foldl_append]
  rfl

theorem recordsOf_summaries {limit : Nat} (entries : List Entry) (scope : Nat)
    (records : List SupplementalExecutionRecord) :
    records.foldl (fun recorded record =>
        recorded.append scope (.summary (summaryRecord lib maxBytes record)))
      (recordsOf lib maxBytes limit entries) =
        recordsOf lib maxBytes limit (entries ++ records.map (.summary scope)) := by
  induction records generalizing entries with
  | nil => rw [List.map_nil, List.append_nil, List.foldl_nil]
  | cons record records ih =>
    rw [List.foldl_cons, List.map_cons, List.append_cons, ← ih, recordsOf_append]
    rfl

/-- A contribution adds its records, or raises before it came to them. -/
theorem contribute_recorded {E : Type} [DecidableEq E] {limit : Nat}
    {t : FactTree E SupplementalExecutionRecord ToolRecord}
    (contribution : ExecutionContribution E SupplementalExecutionRecord) (settlement : Bool)
    (h : ∃ entries, t.recorded = recordsOf lib maxBytes limit entries) :
    ∃ entries, (contribute (summaryRecord lib maxBytes) t contribution settlement).2.recorded =
      recordsOf lib maxBytes limit entries := by
  obtain ⟨entries, same⟩ := h
  rw [contribute]
  cases t.scopes[contribution.contributionId.scopeId]? with
  | none => exact ⟨entries, same⟩
  | some scope =>
    dsimp only
    split_ifs with closed
    · exact ⟨entries, same⟩
    cases t.contributions.get contribution.contributionId with
    | some previous =>
      dsimp only
      split_ifs
      · exact ⟨entries, same⟩
      · exact ⟨entries, same⟩
    | none =>
      dsimp only
      obtain ⟨outcome, effects⟩ := addEffects t.effects contribution.effects
      cases outcome with
      | error raised => exact ⟨entries, same⟩
      | ok done =>
        dsimp only
        rw [same]
        exact ⟨_, recordsOf_summaries entries _ _⟩

/-- In a run of the tree the records are those of what its contributions and tool calls told. -/
theorem run_recorded {E : Type} [DecidableEq E] {budget : ExecutionTree.ExecutionBudgetConfig}
    {limit : Nat} {actions : List (FactAction E SupplementalExecutionRecord ToolRecord)}
    {t : FactTree E SupplementalExecutionRecord ToolRecord}
    (told : ∀ action ∈ actions, ∀ scope record, action = .addToolRecord scope record →
      ∃ facts, record = toolRecord lib maxBytes facts)
    (ran : Runs.run (factStep (summaryRecord lib maxBytes)) (FactTree.create budget limit) actions =
      some t) :
    ∃ entries, t.recorded = recordsOf lib maxBytes limit entries := by
  refine Runs.run_invariant (I := fun t => ∃ entries, t.recorded =
    recordsOf lib maxBytes limit entries) ?_ ⟨[], rfl⟩ (Runs.along_of_forall told) ran
  rintro s action s' ⟨entries, same⟩ told step
  cases action with
  | scopes action =>
    obtain ⟨tree, -, rfl⟩ := Option.map_eq_some_iff.mp step
    exact ⟨entries, same⟩
  | contribute contribution settlement =>
    cases step
    refine contribute_recorded contribution settlement ⟨entries, same⟩
  | addToolRecord scope record =>
    obtain ⟨facts, rfl⟩ := told scope record rfl
    cases step
    exact ⟨entries ++ [.tool scope facts], by rw [recordsOf_append, ← same]; rfl⟩
  | addRetryBlocker blocker =>
    cases step
    exact ⟨entries, same⟩
  | markCommitted effectIds =>
    cases step
    exact ⟨entries, same⟩

/-- Of any entries the first are recorded, one fewer than there is place for; a note follows if and
only if there were as many as there is place for, and just then the records are not complete. -/
theorem recordsOf_bounded (lib : Library) (maxBytes limit : Nat) (positive : 0 < limit)
    (entries : List Entry) :
    (∃ firsts notes, (recordsOf lib maxBytes limit entries).records = firsts ++ notes ∧
      List.Forall₂ (RecordOf lib maxBytes) (entries.take (limit - 1)) firsts ∧
      ((entries.length < limit ∧ notes = []) ∨
        limit ≤ entries.length ∧ ∃ sequence scope, notes = [⟨sequence, scope, .overflow⟩])) ∧
      ((recordsOf lib maxBytes limit entries).complete = true ↔ entries.length < limit) ∧
      ((recordsOf lib maxBytes limit entries).records.map ExecutionRecord.sequence).Pairwise
        (· < ·) := by
  have kept := kept_addAll positive (entries.map (recorded lib maxBytes))
  have length : (entries.map (recorded lib maxBytes)).length = entries.length := List.length_map _
  refine ⟨⟨_, _, kept.records, ?_, ?_⟩, ?_, kept.increasing positive⟩
  · rw [← List.map_take]
    have places : List.Forall₂ (fun item record => ∃ index, record = placed index item)
        ((entries.take (limit - 1)).map (recorded lib maxBytes))
        (((entries.take (limit - 1)).map (recorded lib maxBytes)).mapIdx placed) :=
      forall₂_mapIdx fun index _ _ => ⟨index, rfl⟩
    refine (List.forall₂_map_left_iff.mp places).imp ?_
    rintro entry _ ⟨index, rfl⟩
    exact recordOf_recorded index entry
  · obtain few | many := lt_or_ge entries.length limit
    · exact .inl ⟨few, overflowing_eq_nil positive (length.trans_lt few)⟩
    · obtain ⟨item, -, note⟩ := overflowing_eq_singleton positive (many.trans_eq length.symm)
      exact .inr ⟨many, limit, item.1, note⟩
  · rw [recordsOf, kept.complete, length, decide_eq_true_eq]

end

def plainLibrary : Library := ⟨fun _ => [], fun _ => ""⟩

def verified : SupplementalExecutionRecord := ⟨.succeeded, none, some ⟨[("ok", .bool true)], rfl⟩⟩

theorem recordsOf_bounded_three :
    ((recordsOf plainLibrary 4096 2 [.summary 0 verified, .summary 1 verified, .summary 0 verified]
      ).complete = true ↔ 3 < 2) ∧
      (recordsOf plainLibrary 4096 2 [.summary 0 verified, .summary 1 verified,
        .summary 0 verified]).records.map ExecutionRecord.sequence = [0, 2] :=
  ⟨(recordsOf_bounded plainLibrary 4096 2 (by decide) _).2.1, rfl⟩

end RoboAgent.ExecutionRecords
