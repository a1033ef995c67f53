import RoboAgent.WorldRuns
import RoboAgent.SessionState
import RoboAgent.Contributions

/-! Two notions of sameness of JSON values: the equality of Python, which compares booleans, integers
and floats by value, and the canonical digest, which keeps them apart. They part exactly at values
that hold, at one place, the same number written in two ways. -/

namespace RoboAgent.JsonSameness
open RoboAgent.FrozenJson RoboAgent.SortedJson RoboAgent.JsonIdentity RoboAgent.KeyedLists
open RoboAgent.WorldTypes RoboAgent.WorldStore RoboAgent.WorldCommit RoboAgent.WorldInvariant
open RoboAgent.WorldRuns
open RoboAgent.ToolEffects RoboAgent.ExecutionTree RoboAgent.Contributions
open RoboAgent.SessionState

/-- At one place the values hold the same number, written in two ways: as values of different kinds,
or as the two zeros. -/
inductive Mixed : JsonValue → JsonValue → Prop
  | number {v w : JsonValue} (equal : scalarEqual v w = true) (other : v ≠ w) : Mixed v w
  | item {items others : List JsonValue} {v w : JsonValue} (place : (v, w) ∈ items.zip others)
      (mixed : Mixed v w) : Mixed (.arr items) (.arr others)
  | entry {entries others : List (String × JsonValue)} {key : String} {v w : JsonValue}
      (left : (key, v) ∈ entries) (right : others.lookup key = some w)
      (mixed : Mixed v w) : Mixed (.obj entries) (.obj others)

theorem itemsEqual_iff {items others : List JsonValue} :
    itemsEqual items others = true ↔ List.Forall₂ (fun v w => jsonEqual v w = true) items others := by
  induction items generalizing others with
  | nil => cases others <;> simp [itemsEqual]
  | cons item items ih => cases others <;> simp [itemsEqual, ih]

theorem entriesEqual_iff {entries others : List (String × JsonValue)} :
    entriesEqual entries others = true ↔ ∀ entry ∈ entries, ∃ other,
      others.lookup entry.1 = some other ∧ jsonEqual entry.2 other = true := by
  induction entries with
  | nil => exact iff_of_true rfl (List.forall_mem_nil _)
  | cons entry entries ih =>
    obtain ⟨key, value⟩ := entry
    rw [entriesEqual, Bool.and_eq_true, ih, List.forall_mem_cons]
    refine and_congr_left fun _ => ?_
    cases others.lookup key <;> simp

theorem jsonEqual_arr {items others : List JsonValue} :
    jsonEqual (.arr items) (.arr others) = true ↔
      List.Forall₂ (fun v w => jsonEqual v w = true) items others := by
  rw [jsonEqual, itemsEqual_iff]

theorem jsonEqual_obj {entries others : List (String × JsonValue)} :
    jsonEqual (.obj entries) (.obj others) = true ↔ entries.length = others.length ∧
      ∀ entry ∈ entries, ∃ other, others.lookup entry.1 = some other ∧
        jsonEqual entry.2 other = true := by
  rw [jsonEqual, Bool.and_eq_true, beq_iff_eq, entriesEqual_iff]

theorem eq_of_scalarEqual {v w : JsonValue} (none : numeric v = none)
    (equal : scalarEqual v w = true) : v = w := by
  rw [scalarEqual, none] at equal
  split at equal
  · rename_i x _ here _
    cases here
  · exact beq_iff_eq.mp equal
  · cases equal

/-- Values that differ for the digest and are equal for Python hold a number written in two ways. -/
theorem same_or_mixed {v w : JsonValue} (h : jsonEqual v w = true) : same v w = true ∨ Mixed v w := by
  induction v using JsonValue.ofParts generalizing w with
  | arr items ih =>
    cases w with
    | arr others =>
      have each := jsonEqual_arr.mp h
      by_cases mixed : ∃ pair ∈ items.zip others, Mixed pair.1 pair.2
      · obtain ⟨pair, place, mixed⟩ := mixed
        exact .inr (.item place mixed)
      · refine .inl (same_arr.mpr (List.forall₂_iff_zip.mpr ⟨each.length_eq, ?_⟩))
        intro v w place
        have equal := List.forall₂_zip each place
        exact (ih v (List.of_mem_zip place).1 equal).resolve_right
          fun mix => mixed ⟨(v, w), place, mix⟩
    | _ => cases h
  | obj entries ih =>
    cases w with
    | obj others =>
      obtain ⟨length, each⟩ := jsonEqual_obj.mp h
      by_cases mixed : Mixed (.obj entries) (.obj others)
      · exact .inr mixed
      · refine .inl (same_obj.mpr ⟨length, fun entry mem => ?_⟩)
        obtain ⟨other, has, equal⟩ := each entry mem
        exact ⟨other, has, (ih entry mem equal).resolve_right fun mix => mixed (.entry mem has mix)⟩
    | _ => cases h
  | null => exact .inl (beq_iff_eq.mpr (eq_of_scalarEqual rfl h).symm)
  | str s => exact .inl (beq_iff_eq.mpr (eq_of_scalarEqual rfl h).symm)
  | bool b =>
    by_cases equal : .bool b = w
    · exact .inl (beq_iff_eq.mpr equal.symm)
    · exact .inr (.number h equal)
  | int n =>
    by_cases equal : .int n = w
    · exact .inl (beq_iff_eq.mpr equal.symm)
    · exact .inr (.number h equal)
  | float x =>
    by_cases equal : .float x = w
    · exact .inl (beq_iff_eq.mpr equal.symm)
    · exact .inr (.number h equal)

theorem jsonEqual_of_same {v w : JsonValue} (h : same v w = true) : jsonEqual v w = true := by
  induction v using JsonValue.ofParts generalizing w with
  | arr items ih =>
    cases w with
    | arr others =>
      have each := same_arr.mp h
      refine jsonEqual_arr.mpr (List.forall₂_iff_zip.mpr ⟨each.length_eq, fun {v w} place => ?_⟩)
      exact ih v (List.of_mem_zip place).1 (List.forall₂_zip each place)
    | _ => cases h
  | obj entries ih =>
    cases w with
    | obj others =>
      obtain ⟨length, each⟩ := same_obj.mp h
      refine jsonEqual_obj.mpr ⟨length, fun entry mem => ?_⟩
      obtain ⟨other, has, equal⟩ := each entry mem
      exact ⟨other, has, ih entry mem equal⟩
    | _ => cases h
  | null | bool _ | int _ | float _ | str _ =>
    rw [beq_iff_eq.mp h, jsonEqual]
    exact scalarEqual_refl _

theorem not_same_of_mixed {v w : JsonValue} (mixed : Mixed v w) : same v w = false := by
  rw [← Bool.not_eq_true]
  induction mixed with
  | @number v w equal other =>
    intro h
    cases v with
    | null => exact other (eq_of_scalarEqual rfl equal)
    | str _ => exact other (eq_of_scalarEqual rfl equal)
    | arr _ => exact other (eq_of_scalarEqual rfl equal)
    | obj _ => exact other (eq_of_scalarEqual rfl equal)
    | bool _ => exact other (beq_iff_eq.mp h).symm
    | int _ => exact other (beq_iff_eq.mp h).symm
    | float _ => exact other (beq_iff_eq.mp h).symm
  | item place _ ih => exact fun h => ih (List.forall₂_zip (same_arr.mp h) place)
  | entry left right _ ih =>
    intro h
    obtain ⟨other, has, equal⟩ := (same_obj.mp h).2 _ left
    rw [right] at has
    cases has
    exact ih equal

/-- Equal values are the same just where no number is written in two ways. -/
theorem same_iff_not_mixed {v w : JsonValue} (equal : jsonEqual v w = true) :
    same v w = true ↔ ¬Mixed v w := by
  constructor
  · intro h mixed
    rw [not_same_of_mixed mixed] at h
    cases h
  · exact (same_or_mixed equal).resolve_right

section Digests
variable {lib : Library} {v w : JsonValue}

/-- Both values have the same canonical digest. -/
def SameDigest (lib : Library) (v w : JsonValue) : Prop :=
  ∃ digest, canonicalJsonDigest lib v = .ok digest ∧ canonicalJsonDigest lib w = .ok digest

theorem printable_of_same (valid : wellFormed v = true) (valid' : wellFormed w = true)
    (h : same v w = true) : printable w = printable v := by
  rw [← printable_sortKeys v, sortKeys_eq_of_same valid valid' h, printable_sortKeys]

theorem sameDigest_iff (correct : lib.Correct) (valid : wellFormed v = true)
    (valid' : wellFormed w = true) :
    SameDigest lib v w ↔ printable v = true ∧ same v w = true := by
  constructor
  · rintro ⟨digest, left, right⟩
    obtain ⟨prints, rfl⟩ := canonicalJsonDigest_eq_ok.mp left
    obtain ⟨-, equal⟩ := canonicalJsonDigest_eq_ok.mp right
    exact ⟨prints, same_of_sortKeys_eq valid valid'
      ((dataDigest_injective correct valid valid').mp equal)⟩
  · rintro ⟨prints, h⟩
    have prints' : printable w = true := by rw [printable_of_same valid valid' h, prints]
    refine ⟨dataDigest lib v, canonicalJsonDigest_eq_ok.mpr ⟨prints, rfl⟩,
      canonicalJsonDigest_eq_ok.mpr ⟨prints', ?_⟩⟩
    exact (dataDigest_injective correct valid valid').mpr (sortKeys_eq_of_same valid valid' h)

theorem agree_iff (correct : lib.Correct) (valid : wellFormed v = true)
    (valid' : wellFormed w = true) :
    (jsonEqual v w = true ↔ SameDigest lib v w) ↔
      (jsonEqual v w = true → printable v = true ∧ ¬Mixed v w) := by
  rw [sameDigest_iff correct valid valid']
  constructor
  · intro agree equal
    obtain ⟨prints, h⟩ := agree.mp equal
    exact ⟨prints, (same_iff_not_mixed equal).mp h⟩
  · intro clean
    refine ⟨fun equal => ?_, fun h => jsonEqual_of_same h.2⟩
    obtain ⟨prints, pure⟩ := clean equal
    exact ⟨prints, (same_iff_not_mixed equal).mpr pure⟩

end Digests

section Metadata
variable {s : Session} {metadata : FrozenJsonObject}

/-- set_metadata returns without a change. -/
def Drops (s : Session) (metadata : FrozenJsonObject) : Prop :=
  s.setMetadata metadata = s.unchanged .done

theorem drops_iff : Drops s metadata ↔
    jsonEqual (.obj metadata.entries) (.obj s.metadata.entries) = true := by
  rw [Drops, Session.setMetadata, FrozenJsonObject.equal]
  split_ifs with equal
  · exact iff_of_true rfl equal
  · refine iff_of_false (fun h => ?_) equal
    have required := congrArg Section.required (Except.ok.inj h)
    cases required

theorem drops_same_iff :
    (Drops s metadata → same (.obj metadata.entries) (.obj s.metadata.entries) = true) ↔
      (jsonEqual (.obj metadata.entries) (.obj s.metadata.entries) = true →
        ¬Mixed (.obj metadata.entries) (.obj s.metadata.entries)) := by
  rw [drops_iff]
  exact forall_congr' fun equal => same_iff_not_mixed equal

end Metadata

section Contributions

/-- ExecutionContribution with the content of its effects and the evidence of its records. -/
structure Contribution where
  contributionId : ContributionId
  usage : Option UsageContribution := none
  effects : List ToolEffectRecord := []
  records : List SupplementalExecutionRecord := []
  cleanupErrors : List CleanupError := []

variable (json : JsonValue → JsonValue → Bool)

def optionAlike {α : Type} (r : α → α → Bool) : Option α → Option α → Bool
  | none, none => true
  | some a, some b => r a b
  | none, some _ | some _, none => false

def listAlike {α : Type} (r : α → α → Bool) : List α → List α → Bool
  | [], [] => true
  | a :: as, b :: bs => r a b && listAlike r as bs
  | [], _ :: _ | _ :: _, [] => false

def contentAlike : ToolContent → ToolContent → Bool
  | .json v, .json w => json v w
  | .text text truncated, other => other == .text text truncated
  | .artifact reference, other => other == .artifact reference
  | .json _, .text .. | .json _, .artifact _ => false

def effectAlike (a b : ToolEffectRecord) : Bool :=
  a.callId == b.callId && a.toolName == b.toolName && a.effectKind == b.effectKind &&
    a.status == b.status && optionAlike (contentAlike json) a.content b.content &&
    a.error == b.error && a.transcriptCommitted == b.transcriptCommitted &&
    a.effectId == b.effectId && a.certainty == b.certainty

def recordAlike (a b : SupplementalExecutionRecord) : Bool :=
  a.status == b.status && a.errorCode == b.errorCode &&
    optionAlike (fun v w => json (.obj v.entries) (.obj w.entries)) a.evidence b.evidence

/-- The comparison of dataclasses, field by field, with a comparison of JSON values. -/
def Contribution.alike (a b : Contribution) : Bool :=
  a.contributionId == b.contributionId && a.usage == b.usage &&
    listAlike (effectAlike json) a.effects b.effects &&
    listAlike (recordAlike json) a.records b.records && a.cleanupErrors == b.cleanupErrors

/-- What contribute does with a contribution whose id it knows. -/
def retryCheck (previous contribution : Contribution) : Except ExecutionError Unit :=
  if previous.alike jsonEqual contribution then .ok ()
  else .error (.invariant "Contribution identity was reused with different content.")

/-- The JSON values at the same places of two contents. -/
def contentPairs : Option ToolContent → Option ToolContent → List (JsonValue × JsonValue)
  | some (.json v), some (.json w) => [(v, w)]
  | _, _ => []

def evidencePairs : Option FrozenJsonObject → Option FrozenJsonObject → List (JsonValue × JsonValue)
  | some v, some w => [(.obj v.entries, .obj w.entries)]
  | _, _ => []

def effectPairs (a b : ToolEffectRecord) : List (JsonValue × JsonValue) :=
  contentPairs a.content b.content

def recordPairs (a b : SupplementalExecutionRecord) : List (JsonValue × JsonValue) :=
  evidencePairs a.evidence b.evidence

/-- The JSON values at the same places of two contributions. -/
def Contribution.pairs (a b : Contribution) : List (JsonValue × JsonValue) :=
  (a.effects.zip b.effects).flatMap (fun pair => effectPairs pair.1 pair.2) ++
    (a.records.zip b.records).flatMap fun pair => recordPairs pair.1 pair.2

/-- The frame of a comparison, in which JSON values count as alike. -/
def anyJson (_ _ : JsonValue) : Bool := true

theorem contentAlike_iff {c d : Option ToolContent} :
    optionAlike (contentAlike json) c d = true ↔
      optionAlike (contentAlike anyJson) c d = true ∧
        ∀ pair ∈ contentPairs c d, json pair.1 pair.2 = true := by
  rcases c with _ | (_ | _ | _) <;> rcases d with _ | (_ | _ | _) <;>
    simp [optionAlike, contentAlike, contentPairs, anyJson]

theorem effectAlike_iff (a b : ToolEffectRecord) : effectAlike json a b = true ↔
    effectAlike anyJson a b = true ∧ ∀ pair ∈ effectPairs a b, json pair.1 pair.2 = true := by
  simp only [effectAlike, Bool.and_eq_true, contentAlike_iff json, effectPairs]
  tauto

theorem recordAlike_iff (a b : SupplementalExecutionRecord) : recordAlike json a b = true ↔
    recordAlike anyJson a b = true ∧ ∀ pair ∈ recordPairs a b, json pair.1 pair.2 = true := by
  rw [recordAlike, recordAlike, recordPairs]
  cases a.evidence <;> cases b.evidence <;> simp [optionAlike, evidencePairs, anyJson]

theorem listAlike_iff {E : Type} {r frame : E → E → Bool}
    {pairs : E → E → List (JsonValue × JsonValue)}
    (each : ∀ a b, r a b = true ↔ frame a b = true ∧ ∀ pair ∈ pairs a b, json pair.1 pair.2 = true)
    {as bs : List E} : listAlike r as bs = true ↔ listAlike frame as bs = true ∧
      ∀ pair ∈ (as.zip bs).flatMap (fun place => pairs place.1 place.2),
        json pair.1 pair.2 = true := by
  induction as generalizing bs with
  | nil => cases bs <;> simp [listAlike]
  | cons a as ih =>
    cases bs with
    | nil => simp [listAlike]
    | cons b bs =>
      rw [listAlike, listAlike, Bool.and_eq_true, Bool.and_eq_true, each, ih, List.zip_cons_cons,
        List.flatMap_cons, List.forall_mem_append]
      exact and_and_and_comm

theorem Contribution.alike_iff {a b : Contribution} : a.alike json b = true ↔
    a.alike anyJson b = true ∧ ∀ pair ∈ a.pairs b, json pair.1 pair.2 = true := by
  have effects := @listAlike_iff json _ _ _ _ (effectAlike_iff json) a.effects b.effects
  have records := @listAlike_iff json _ _ _ _ (recordAlike_iff json) a.records b.records
  simp only [Contribution.alike, Bool.and_eq_true, effects, records, Contribution.pairs,
    List.forall_mem_append]
  tauto

variable {previous contribution : Contribution}

theorem retryCheck_same_iff :
    (retryCheck previous contribution = .ok () → previous.alike same contribution = true) ↔
      (previous.alike jsonEqual contribution = true →
        ∀ pair ∈ previous.pairs contribution, ¬Mixed pair.1 pair.2) := by
  have accepted : retryCheck previous contribution = .ok () ↔
      previous.alike jsonEqual contribution = true := by
    rw [retryCheck]
    split_ifs with equal
    · exact iff_of_true rfl equal
    · exact iff_of_false nofun equal
  rw [accepted]
  refine forall_congr' fun equal => ?_
  obtain ⟨frame, equal⟩ := (Contribution.alike_iff jsonEqual).mp equal
  rw [Contribution.alike_iff same, and_iff_right frame]
  exact forall₂_congr fun pair mem => same_iff_not_mixed (equal pair mem)

end Contributions

/-- Equality and digest agree on two values, set_metadata drops no change, and the retry check takes
no different content, exactly where no number is written in two ways; and for the digest to exist,
every integer must be short enough to be written. -/
theorem sameness_agrees_iff {lib : Library} (correct : lib.Correct) :
    (∀ v w : FrozenJsonValue, (jsonEqual v.value w.value = true ↔ SameDigest lib v.value w.value) ↔
      (jsonEqual v.value w.value = true →
        printable v.value = true ∧ ¬Mixed v.value w.value)) ∧
    (∀ (s : Session) (metadata : FrozenJsonObject),
      (Drops s metadata → same (.obj metadata.entries) (.obj s.metadata.entries) = true) ↔
        (jsonEqual (.obj metadata.entries) (.obj s.metadata.entries) = true →
          ¬Mixed (.obj metadata.entries) (.obj s.metadata.entries))) ∧
    ∀ previous contribution : Contribution,
      (retryCheck previous contribution = .ok () → previous.alike same contribution = true) ↔
        (previous.alike jsonEqual contribution = true →
          ∀ pair ∈ previous.pairs contribution, ¬Mixed pair.1 pair.2) :=
  ⟨fun v w => agree_iff correct v.frozen w.frozen, fun _ _ => drops_same_iff,
    fun _ _ => retryCheck_same_iff⟩

section Example

def counted : FrozenJsonObject := ⟨[("a", .int 1)], rfl⟩

def flagged : FrozenJsonObject := ⟨[("a", .bool true)], rfl⟩

/-- The digests sha256 gives for the two objects. -/
def flagDigests : List (List Char × String) := [
  ("\x7b\"a\":1\x7d".toList, "015abd7f5cc57a2dd94b7590f04ad8084273905ee33ec5cebeae62276a97f862"),
  ("\x7b\"a\":true\x7d".toList,
    "5daa0644c4a1c43ea018f7f1ef2944b90e0165ef1f2d5669ca89e5d4f69ac597")]

def flagLibrary : Library := ⟨bitsText, recordedDigest flagDigests⟩

theorem flagLibrary_correct : flagLibrary.Correct := by
  refine ⟨bitsText_correct, recordedDigest_injective (by decide +kernel) ?_⟩
  simp only [flagDigests, List.map_cons, List.map_nil, List.forall_mem_cons]
  repeat rw [String.toList_ofList]
  decide

def noted : Session where
  sessionId := "session"
  mediaLimits := {}
  hasRepository := true
  messages := []
  activeRun := none
  closed := false
  sequence := 0
  pending := []
  currentCompaction := none
  metadata := counted
  runtimeRevision := 1
  durableRevision := some 1

theorem sameness_agrees_counted :
    (jsonEqual (.obj counted.entries) (.obj counted.entries) = true ↔
      SameDigest flagLibrary (.obj counted.entries) (.obj counted.entries)) := by
  have clean (equal : jsonEqual (.obj counted.entries) (.obj counted.entries) = true) :
      printable (.obj counted.entries) = true ∧
        ¬Mixed (.obj counted.entries) (.obj counted.entries) :=
    ⟨by decide +kernel, (same_iff_not_mixed equal).mp (by decide +kernel)⟩
  exact ((sameness_agrees_iff flagLibrary_correct).1 ⟨.obj counted.entries, counted.frozen⟩
    ⟨.obj counted.entries, counted.frozen⟩).mpr clean

/-- The metadata of a session is an object with the number 1; the same object with true in its place
has another digest, and set_metadata drops it. -/
theorem flag_taken_for_number :
    jsonEqual (.obj flagged.entries) (.obj counted.entries) = true ∧
      ¬SameDigest flagLibrary (.obj flagged.entries) (.obj counted.entries) ∧
      Drops noted flagged ∧
      same (.obj flagged.entries) (.obj noted.metadata.entries) = false := by
  refine ⟨by decide +kernel, ?_, drops_iff.mpr (by decide +kernel), by decide +kernel⟩
  rw [sameDigest_iff flagLibrary_correct flagged.frozen counted.frozen]
  decide +kernel

end Example

end RoboAgent.JsonSameness
