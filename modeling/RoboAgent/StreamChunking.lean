import Mathlib
import RoboAgent.StreamAdapter
import RoboAgent.FalliblePrograms

/-! How a reply is cut into chunks does not matter to the adapter, as long as the first fragment of a
tool call brings its id and no empty name. The reply a chunk sequence carries is compared with the
one the adapter assembles. -/

namespace RoboAgent.StreamChunking
open RoboAgent.FrozenJson RoboAgent.KeyedLists RoboAgent.Messages RoboAgent.ModelEvents
open RoboAgent.Dicts
open RoboAgent.StreamAdapter RoboAgent.StreamAdapter.Assembly
open RoboAgent.FalliblePrograms (bind_eq_ok ok_bind)

def nameOf (fragment : ToolCallFragment) : Option String :=
  fragment.function.bind fun function => given function.name

def argumentsOf (fragment : ToolCallFragment) : String :=
  orEmpty (fragment.function.bind FunctionFragment.arguments)

def textOf : Item → Option String
  | .content text => given text
  | _ => none

def reasoningOf : Item → Option String
  | .reasoning text => given text
  | _ => none

def reasonOf : Item → Option String
  | .reason reason => some reason
  | _ => none

def usageOf : Item → Option RawUsage
  | .usage raw => some raw
  | _ => none

def fragmentOf : Item → Option ToolCallFragment
  | .fragment fragment => some fragment
  | _ => none

def fragments (items : List Item) : List ToolCallFragment := items.filterMap fragmentOf

def ownFragments (items : List Item) (index : Int) : List ToolCallFragment :=
  (fragments items).filter (·.index = index)

/-- What the fragments of one index carry together. -/
structure CarriedCall where
  id : Option String
  name : Option String
  arguments : String
deriving DecidableEq

def carriedCall (own : List ToolCallFragment) : CarriedCall where
  id := own.findSome? fun fragment => given fragment.id
  name := own.findSome? nameOf
  arguments := String.join (own.map argumentsOf)

/-- What a chunk sequence carries, however it is cut. -/
structure Carried where
  text : String
  reasoning : String
  finishReason : FinishReason
  usage : Option RawUsage
  calls : List (Int × CarriedCall)
deriving DecidableEq

def indices (items : List Item) : List Int :=
  ((fragments items).map ToolCallFragment.index).dedup.insertionSort (· ≤ ·)

def carried (items : List Item) : Carried where
  text := String.join (items.filterMap textOf)
  reasoning := String.join (items.filterMap reasoningOf)
  finishReason := ((items.filterMap reasonOf).getLast?.map finishReasonOf).getD .other
  usage := (items.filterMap usageOf).getLast?
  calls := (indices items).map fun index => (index, carriedCall (ownFragments items index))

/-- At every index one id and one name. -/
def Steady (items : List Item) : Prop :=
  ∀ first ∈ fragments items, ∀ second ∈ fragments items, first.index = second.index →
    (∀ id ∈ given first.id, ∀ other ∈ given second.id, id = other) ∧
      ∀ name ∈ nameOf first, ∀ other ∈ nameOf second, name = other

instance (items : List Item) : Decidable (Steady items) := by
  unfold Steady
  infer_instance

/-- What goes wrong at an item, by the items before it: an invalid usage, an index opened below zero
or with an empty name, or an id that comes after the first fragment of its index. -/
def itemFault (host : Host) (before : List Item) : Item → Option Kind
  | .usage raw => if raw.normalized.checked then none else some .valueError
  | .fragment fragment =>
    match ownFragments before fragment.index with
    | [] =>
      if fragment.index < 0 ∨ fragment.function.bind FunctionFragment.name = some "" then
        some .valueError
      else none
    | first :: _ =>
      if given first.id = none ∧
          (given fragment.id).any (· ≠ host.generatedId fragment.index) then
        some (.modelProtocol .invalidToolCallDeltaState)
      else none
  | .id _ | .reason _ | .reasoning _ | .content _ => none

def faultAfter (host : Host) : List Item → List Item → Option Kind
  | _, [] => none
  | before, item :: rest =>
    (itemFault host before item).or (faultAfter host (before ++ [item]) rest)

/-- The first thing that goes wrong in a chunk sequence. -/
def firstFault (host : Host) (chunks : List Chunk) : Option Kind :=
  faultAfter host [] (streamItems chunks)

/-- The call an index has after its fragments. -/
def callState (host : Host) (index : Int) (own : List ToolCallFragment) : Option CallState :=
  own.head?.map fun first =>
    ⟨(given first.id).getD (host.generatedId index), (carriedCall own).name.getD "",
      (carriedCall own).arguments⟩

/-- The assembly is what the items before carry. -/
structure Reads (host : Host) (before : List Item) (s : Assembly) : Prop where
  texts : s.textParts = before.filterMap textOf
  reasonings : s.reasoningParts =
    if host.preserveReasoningContent then before.filterMap reasoningOf else []
  finishReason : s.finishReason =
    ((before.filterMap reasonOf).getLast?.map finishReasonOf).getD .other
  usage : s.usage = (before.filterMap usageOf).getLast?.map RawUsage.normalized
  calls : ∀ index, s.calls.get index = callState host index (ownFragments before index)

variable {host : Host} {before : List Item} {s s' : Assembly}

theorem filterMap_snoc {α β : Type} (f : α → Option β) (list : List α) (last : α) :
    (list ++ [last]).filterMap f = list.filterMap f ++ (f last).toList := by
  rw [List.filterMap_append]
  refine congrArg (list.filterMap f ++ ·) ?_
  cases found : f last <;> simp [found]

theorem ownFragments_append (before : List Item) (item : Item) (index : Int) :
    ownFragments (before ++ [item]) index = ownFragments before index ++
      (fragmentOf item).toList.filter (·.index = index) := by
  rw [ownFragments, fragments, filterMap_snoc, List.filter_append]
  rfl

theorem carriedCall_append (own : List ToolCallFragment) (fragment : ToolCallFragment) :
    carriedCall (own ++ [fragment]) =
      ⟨(carriedCall own).id.or (given fragment.id), (carriedCall own).name.or (nameOf fragment),
        (carriedCall own).arguments ++ argumentsOf fragment⟩ := by
  rw [carriedCall, List.findSome?_append, List.findSome?_append, List.map_append, String.join_append,
    List.findSome?_singleton, List.findSome?_singleton, List.map_singleton, String.join_cons,
    String.join_nil, String.append_empty]
  rfl

/-- A fragment that goes on with a call. -/
theorem extended_carried {state : CallState} {fragment : ToolCallFragment} {name : Option String}
    (named : state.name = name.getD "") (same : ∀ n ∈ name, ∀ other ∈ nameOf fragment, n = other) :
    fragment.function.elim state (extended state) =
      ⟨state.id, (name.or (nameOf fragment)).getD "", state.arguments ++ argumentsOf fragment⟩ := by
  rw [nameOf, argumentsOf] at *
  cases called : fragment.function with
  | none =>
    rw [Option.bind_none, Option.bind_none, Option.or_none, ← named]
    exact congrArg (CallState.mk state.id state.name) String.append_empty.symm
  | some function =>
    rw [called] at same
    rw [Option.elim_some, extended]
    refine congrArg (CallState.mk state.id · _) ?_
    rw [Option.bind_some, named]
    cases name with
    | none => rfl
    | some n =>
      cases later : given function.name with
      | none => rfl
      | some other =>
        have agree := same n rfl other later
        exact agree.symm

theorem given_getD (text : Option String) : (given text).getD "" = orEmpty text := by
  cases present : given text with
  | none => exact (given_eq_none.mp present).symm
  | some s => rw [(given_eq_some.mp present).1]; rfl

theorem opened_name (host : Host) (fragment : ToolCallFragment) :
    (opened host fragment).name = (nameOf fragment).getD "" := by
  rw [opened, nameOf]
  cases fragment.function with
  | none => rfl
  | some function => exact (given_getD function.name).symm

theorem callState_append {own : List ToolCallFragment} {fragment : ToolCallFragment}
    (same : ∀ name ∈ (carriedCall own).name, ∀ other ∈ nameOf fragment, name = other) :
    callState host fragment.index (own ++ [fragment]) =
      let state := (callState host fragment.index own).getD (opened host fragment)
      some (fragment.function.elim state (extended state)) := by
  dsimp only
  rw [callState, carriedCall_append]
  cases own with
  | nil =>
    refine congrArg some (Eq.symm ?_)
    refine (extended_carried (opened_name host fragment) fun n here other there =>
      Option.some.inj (here.symm.trans there)).trans ?_
    rw [Option.or_self]
    rfl
  | cons first rest =>
    refine congrArg some (Eq.symm ?_)
    exact extended_carried rfl same

theorem mem_fragments {items : List Item} {fragment : ToolCallFragment} :
    fragment ∈ fragments items ↔ Item.fragment fragment ∈ items := by
  rw [fragments, List.mem_filterMap]
  constructor
  · rintro ⟨item, mem, same⟩
    cases item with
    | fragment other => exact Option.some.inj same ▸ mem
    | _ => cases same
  · exact fun mem => ⟨_, mem, rfl⟩

theorem mem_ownFragments {items : List Item} {index : Int} {fragment : ToolCallFragment} :
    fragment ∈ ownFragments items index ↔
      Item.fragment fragment ∈ items ∧ fragment.index = index := by
  rw [ownFragments, List.mem_filter, mem_fragments, decide_eq_true_eq]

theorem Steady.mono {items others : List Item} (h : Steady others)
    (within : ∀ item ∈ items, item ∈ others) : Steady items := by
  intro first mem second mem'
  exact h first (mem_fragments.mpr (within _ (mem_fragments.mp mem))) second
    (mem_fragments.mpr (within _ (mem_fragments.mp mem')))

/-- A fragment agrees with the earlier ones of its index. -/
theorem Steady.own {fragment : ToolCallFragment} (h : Steady (before ++ [.fragment fragment]))
    {earlier : ToolCallFragment} (mem : earlier ∈ ownFragments before fragment.index) :
    (∀ id ∈ given earlier.id, ∀ other ∈ given fragment.id, id = other) ∧
      ∀ name ∈ nameOf earlier, ∀ other ∈ nameOf fragment, name = other := by
  obtain ⟨present, index⟩ := mem_ownFragments.mp mem
  exact h earlier (mem_fragments.mpr (List.mem_append_left _ present)) fragment
    (mem_fragments.mpr (List.mem_append_right _ List.mem_cons_self)) index

theorem Steady.name {fragment : ToolCallFragment} (h : Steady (before ++ [.fragment fragment])) :
    ∀ name ∈ (carriedCall (ownFragments before fragment.index)).name,
      ∀ other ∈ nameOf fragment, name = other := by
  intro name carries
  obtain ⟨earlier, mem, named⟩ := List.exists_of_findSome?_eq_some carries
  exact (h.own mem).2 name named

theorem Reads.fragment (reads : Reads host before s) {fragment : ToolCallFragment}
    (steady : Steady (before ++ [.fragment fragment])) (index : Int) :
    (advance host s (.fragment fragment)).calls.get index =
      callState host index (ownFragments (before ++ [.fragment fragment]) index) := by
  rw [calls_advance_fragment, ownFragments_append, fragmentOf, Option.toList_some]
  by_cases here : index = fragment.index
  · subst here
    have kept : [fragment].filter (·.index = fragment.index) = [fragment] := by simp
    rw [if_pos rfl, kept, callState_append steady.name, reads.calls]
  · have dropped : [fragment].filter (·.index = index) = [] := by simp [Ne.symm here]
    rw [if_neg here, dropped, List.append_nil, reads.calls]

theorem fragment_frame (host : Host) (s : Assembly) (fragment : ToolCallFragment) :
    ∃ sequence calls emitted,
      advance host s (.fragment fragment) = { s with sequence, calls, emitted } := by
  have started : ∃ sequence calls emitted,
      advanceOpen host s fragment = { s with sequence, calls, emitted } := by
    rw [advanceOpen]
    cases s.calls.get fragment.index <;> exact ⟨_, _, _, rfl⟩
  obtain ⟨sequence, calls, emitted, same⟩ := started
  rw [advance, same]
  cases fragment.function with
  | none => exact ⟨_, _, _, rfl⟩
  | some function =>
    rw [Option.elim_some, advanceFunction]
    split_ifs <;> exact ⟨_, _, _, rfl⟩

/-- What an item does to an assembly besides its calls. -/
theorem advance_fields (host : Host) (s : Assembly) (item : Item) :
    (advance host s item).textParts = s.textParts ++ (textOf item).toList ∧
      (advance host s item).reasoningParts = s.reasoningParts ++
        (if host.preserveReasoningContent then (reasoningOf item).toList else []) ∧
      (advance host s item).finishReason = ((reasonOf item).map finishReasonOf).getD s.finishReason ∧
      (advance host s item).usage = ((usageOf item).map RawUsage.normalized).or s.usage := by
  cases item with
  | id chunkId =>
    obtain ⟨responseId, same⟩ := receiveId_frame s chunkId
    rw [advance, same]
    simp [textOf, reasoningOf, reasonOf, usageOf]
  | reasoning text =>
    rw [advance, receiveReasoning_eq]
    simp [textOf, reasoningOf, reasonOf, usageOf]
  | content text =>
    rw [advance, textOf]
    cases given text <;> simp [reasoningOf, reasonOf, usageOf, Assembly.yielded]
  | reason reason => simp [advance, receiveReason, textOf, reasoningOf, reasonOf, usageOf]
  | usage raw => simp [advance, Assembly.yielded, textOf, reasoningOf, reasonOf, usageOf]
  | fragment fragment =>
    obtain ⟨sequence, calls, emitted, same⟩ := fragment_frame host s fragment
    rw [same]
    simp [textOf, reasoningOf, reasonOf, usageOf]

theorem reads_advance (reads : Reads host before s) {item : Item}
    (steady : Steady (before ++ [item])) :
    Reads host (before ++ [item]) (advance host s item) := by
  obtain ⟨texts, reasonings, finishReason, usage⟩ := advance_fields host s item
  refine ⟨?_, ?_, ?_, ?_, fun index => ?_⟩
  · rw [texts, filterMap_snoc, reads.texts]
  · rw [reasonings, filterMap_snoc, reads.reasonings]
    split_ifs
    · rfl
    · exact List.append_nil _
  · rw [finishReason, filterMap_snoc, reads.finishReason]
    cases reasonOf item <;> simp
  · rw [usage, filterMap_snoc, reads.usage]
    cases usageOf item <;> simp
  · obtain ⟨fragment, rfl⟩ | other := fragment_or item
    · exact reads.fragment steady index
    · have none : fragmentOf item = none := by
        cases item with
        | fragment fragment => exact absurd rfl (other fragment)
        | _ => rfl
      rw [calls_advance_other s other, ownFragments_append, none]
      exact (reads.calls index).trans (congrArg _ (List.append_nil _).symm)

theorem started_kind (host : Host) (sequence : Nat) (fragment : ToolCallFragment) :
    ((ModelEvent.toolCallStarted sequence fragment.index (opened host fragment).id
      (fragment.function.bind FunctionFragment.name)).refused.map Failure.valueError).map
        Failure.kind =
      if fragment.index < 0 ∨ fragment.function.bind FunctionFragment.name = some "" then
        some .valueError
      else none := by
  cases refused : (ModelEvent.toolCallStarted sequence fragment.index (opened host fragment).id
      (fragment.function.bind FunctionFragment.name)).refused with
  | none =>
    obtain ⟨inside, -, named⟩ := refused_started_eq_none.mp refused
    rw [if_neg (not_or.mpr ⟨not_lt.mpr inside, named⟩)]
    rfl
  | some message =>
    rw [if_pos]
    · rfl
    · by_contra fine
      rw [not_or, not_lt] at fine
      have accepted := (@refused_started_eq_none sequence fragment.index _ _).mpr
        ⟨fine.1, opened_id_ne host fragment, fine.2⟩
      cases refused.symm.trans accepted

/-- Only an id can change, and only if the first fragment brought none. -/
theorem changed_kind {first : ToolCallFragment} {rest : List ToolCallFragment}
    {fragment : ToolCallFragment} {state : CallState}
    (known : callState host fragment.index (first :: rest) = some state)
    (sameId : ∀ id ∈ given first.id, ∀ other ∈ given fragment.id, id = other)
    (sameName : ∀ name ∈ (carriedCall (first :: rest)).name, ∀ other ∈ nameOf fragment,
      name = other) :
    (changed state fragment).map Failure.kind =
      if given first.id = none ∧
          (given fragment.id).any (· ≠ host.generatedId fragment.index) then
        some (.modelProtocol .invalidToolCallDeltaState)
      else none := by
  cases known
  have unchanged : ¬(fragment.function.bind fun function => given function.name).any (fun name =>
      (carriedCall (first :: rest)).name.getD "" ≠ "" ∧
        (carriedCall (first :: rest)).name.getD "" ≠ name) = true := by
    rw [← nameOf]
    cases later : nameOf fragment with
    | none => exact Bool.false_ne_true
    | some other =>
      cases named : (carriedCall (first :: rest)).name with
      | none => simp
      | some name => simp [sameName name named other later]
  rw [changed, if_neg unchanged]
  dsimp only
  obtain opening | ⟨id, opening⟩ := Option.eq_none_or_eq_some (given first.id)
  · simp only [opening, true_and, Option.getD_none]
    split_ifs <;> rfl
  · have same : ¬(given fragment.id).any (· ≠ (given first.id).getD
        (host.generatedId fragment.index)) = true := by
      rw [opening]
      cases later : given fragment.id with
      | none => exact Bool.false_ne_true
      | some other => simp [sameId id opening other later]
    rw [if_neg same, if_neg fun both => by cases both.1.symm.trans opening]
    rfl

/-- The fault of an item is the one its place in the sequence shows. -/
theorem fault_kind (reads : Reads host before s) {item : Item}
    (steady : Steady (before ++ [item])) :
    (fault host s item).map Failure.kind = itemFault host before item := by
  cases item with
  | usage raw =>
    rw [fault, itemFault]
    split_ifs <;> rfl
  | id _ | reason _ | reasoning _ | content _ => rfl
  | fragment fragment =>
    have known := reads.calls fragment.index
    rw [fault, itemFault]
    cases own : ownFragments before fragment.index with
    | nil =>
      rw [own] at known
      rw [known]
      exact started_kind host s.sequence fragment
    | cons first rest =>
      have mem : first ∈ ownFragments before fragment.index := own ▸ List.mem_cons_self
      have sameName := steady.name
      rw [own] at known sameName
      rw [known]
      exact changed_kind rfl (steady.own mem).1 sameName

/-- No fault up to here: an index without an id in its first fragment has none but the generated. -/
def Timely (host : Host) (items : List Item) : Prop :=
  ∀ index first rest, ownFragments items index = first :: rest → given first.id = none →
    ∀ fragment ∈ rest, ∀ id ∈ given fragment.id, id = host.generatedId index

theorem timely_append {item : Item} (timely : Timely host before)
    (fine : itemFault host before item = none) : Timely host (before ++ [item]) := by
  intro index first rest own opening fragment mem id present
  rw [ownFragments_append] at own
  cases earlier : ownFragments before index with
  | nil =>
    rw [earlier, List.nil_append] at own
    have one : (fragmentOf item).toList.length ≤ 1 := by cases fragmentOf item <;> simp
    have few := (List.length_filter_le (·.index = index) (fragmentOf item).toList).trans one
    rw [own, List.length_cons] at few
    have nothing : rest = [] := List.eq_nil_of_length_eq_zero (by omega)
    rw [nothing] at mem
    cases mem
  | cons former others =>
    rw [earlier, List.cons_append] at own
    obtain ⟨rfl, rfl⟩ := List.cons.inj own
    obtain old | new := List.mem_append.mp mem
    · exact timely index former others earlier opening fragment old id present
    · obtain ⟨within, here⟩ := List.mem_filter.mp new
      cases item with
      | fragment other =>
        cases List.mem_singleton.mp within
        cases of_decide_eq_true here
        rw [itemFault, earlier] at fine
        dsimp only at fine
        split_ifs at fine with late
        by_contra different
        refine late ⟨opening, ?_⟩
        rw [present, Option.any_some]
        exact decide_eq_true different
      | _ => cases within

/-- Reading the rest of a steady sequence: the first fault ends it, without one it is read. -/
theorem read_rest {rest : List Item} (steady : Steady (before ++ rest)) (sound : Sound s)
    (reads : Reads host before s) (timely : Timely host before) :
    match faultAfter host before rest with
    | some kind => ∃ failure, rest.foldlM (receive host) s = .error failure ∧ failure.kind = kind
    | none => ∃ s', rest.foldlM (receive host) s = .ok s' ∧ Sound s' ∧
        Reads host (before ++ rest) s' ∧ Timely host (before ++ rest) := by
  induction rest generalizing before s with
  | nil =>
    rw [faultAfter, List.append_nil]
    exact ⟨s, rfl, sound, reads, timely⟩
  | cons item rest ih =>
    have here : Steady (before ++ [item]) := by
      refine steady.mono fun other mem => ?_
      rw [List.append_cons]
      exact List.mem_append_left _ mem
    have agrees := fault_kind reads here
    rw [faultAfter, List.foldlM_cons, receive_eq sound]
    cases raised : fault host s item with
    | some failure =>
      rw [← agrees, raised]
      exact ⟨failure, rfl, rfl⟩
    | none =>
      rw [raised] at agrees
      have later := ih (List.append_cons .. ▸ steady) (sound_advance sound raised)
        (reads_advance reads here) (timely_append timely agrees.symm)
      rw [← List.append_cons] at later
      rw [← agrees]
      exact later

/-- The call of an index, by what its fragments carry. -/
def callEntry (host : Host) (entry : Int × CarriedCall) : Int × CallState :=
  (entry.1, ⟨entry.2.id.getD (host.generatedId entry.1), entry.2.name.getD "", entry.2.arguments⟩)

theorem findSome?_eq_of_forall {α β : Type} {f : α → Option β} {list : List α} {b : β}
    (all : ∀ a ∈ list, ∀ c ∈ f a, c = b) : (list.findSome? f).getD b = b := by
  cases found : list.findSome? f with
  | none => rfl
  | some c =>
    obtain ⟨a, mem, here⟩ := List.exists_of_findSome?_eq_some found
    exact all a mem c here

/-- In a timely sequence the id of a call does not depend on where its first id stands. -/
theorem callState_timely {items : List Item} (timely : Timely host items) {index : Int}
    (known : ownFragments items index ≠ []) :
    callState host index (ownFragments items index) =
      some (callEntry host (index, carriedCall (ownFragments items index))).2 := by
  cases own : ownFragments items index with
  | nil => exact absurd own known
  | cons first rest =>
    refine congrArg some (congrArg (CallState.mk · _ _) ?_)
    rw [carriedCall, List.findSome?_cons]
    cases opening : given first.id with
    | some id => rfl
    | none => exact (findSome?_eq_of_forall (timely index first rest own opening)).symm

theorem mem_indices {items : List Item} {index : Int} :
    index ∈ indices items ↔ ownFragments items index ≠ [] := by
  rw [indices, List.mem_insertionSort, List.mem_dedup, List.mem_map]
  constructor
  · rintro ⟨fragment, mem, here⟩
    exact List.ne_nil_of_mem (mem_ownFragments.mpr ⟨mem_fragments.mp mem, here⟩)
  · intro known
    obtain ⟨fragment, mem⟩ := List.exists_mem_of_ne_nil _ known
    obtain ⟨present, here⟩ := mem_ownFragments.mp mem
    exact ⟨fragment, mem_fragments.mpr present, here⟩

theorem indices_increasing (items : List Item) : (indices items).Pairwise (· < ·) := by
  have distinct : (indices items).Nodup :=
    (List.perm_insertionSort ..).nodup_iff.mpr (List.nodup_dedup _)
  have sorted : (indices items).Pairwise (· ≤ ·) := List.pairwise_insertionSort ..
  exact (sorted.and distinct).imp fun both => lt_of_le_of_ne both.1 both.2

/-- The calls the adapter completes are those the sequence carries. -/
theorem sortedCalls_eq {items : List Item} (reads : Reads host items s)
    (timely : Timely host items) :
    s.sortedCalls = (carried items).calls.map (callEntry host) := by
  have first : s.sortedCalls.Pairwise fun entry other => entry.1 < other.1 :=
    List.pairwise_map.mp (sortedCalls_increasing s)
  have second : ((carried items).calls.map (callEntry host)).Pairwise
      fun entry other => entry.1 < other.1 := by
    rw [carried, List.map_map, List.pairwise_map]
    exact indices_increasing items
  have members : ∀ entry, entry ∈ s.sortedCalls ↔
      entry ∈ (carried items).calls.map (callEntry host) := by
    intro ⟨index, state⟩
    rw [(sortedCalls_perm s).mem_iff, ← Dict.get_eq_some_iff, reads.calls, carried, List.map_map,
      List.mem_map]
    constructor
    · intro found
      have known : ownFragments items index ≠ [] := by
        intro none
        rw [none] at found
        cases found
      refine ⟨index, mem_indices.mpr known, congrArg (Prod.mk index) ?_⟩
      exact Option.some.inj ((callState_timely timely known).symm.trans found)
    · rintro ⟨other, mem, same⟩
      cases same
      exact callState_timely timely (mem_indices.mp mem)
  exact first.eq_of_mem_iff second members

/-- One more call of a reply. -/
def normalizeNext (host : Host) (calls : List ToolCall) (entry : Int × CallState) :
    Except Failure (List ToolCall) := do
  let call ← Assembly.normalize host entry.2
  if calls.any (·.id = call.id) then
    .error (.modelProtocol .duplicateToolCallId "ToolCall IDs must be unique.")
  else return calls ++ [call]

def keptReasoning (host : Host) (carried : Carried) : String :=
  if host.preserveReasoningContent then carried.reasoning else ""

/-- What becomes of a reply that the adapter read without a fault. -/
def reply (host : Host) (carried : Carried) : Except Failure ModelResponse := do
  let calls ← (carried.calls.map (callEntry host)).foldlM (normalizeNext host) []
  if (contentOf carried.text).isEmpty ∧ calls.isEmpty then
    .error (.modelProtocol .emptyModelResponse
      "Provider completed without text or a tool call.")
  else do
    let message ← assistantMessage (contentOf carried.text) calls
      (given (some (keptReasoning host carried))) host.now host.messageId
    return ⟨message, carried.finishReason, carried.usage.map RawUsage.normalized⟩

theorem refused_completed {sequence : Nat} {index : Int} {call : ToolCall} (inside : 0 ≤ index) :
    (ModelEvent.toolCallCompleted sequence index call).refused = none := by
  have positive : ¬(ModelEvent.toolCallCompleted sequence index call).callIndex?.any (· < 0) =
      true := by
    rw [ModelEvent.callIndex?, Option.any_some, decide_eq_true_eq]
    omega
  exact if_neg positive

/-- The loop over the calls does to the calls what it does without its events. -/
theorem completeCalls_eq {entries : List (Int × CallState)} (inside : ∀ entry ∈ entries, 0 ≤ entry.1)
    (calls : List ToolCall) :
    match entries.foldlM (normalizeNext host) calls with
    | .error failure => entries.foldlM (completeCall host) (s, calls) = .error failure
    | .ok new => ∃ sequence emitted,
        entries.foldlM (completeCall host) (s, calls) = .ok ({ s with sequence, emitted }, new) := by
  induction entries generalizing s calls with
  | nil => exact ⟨s.sequence, s.emitted, rfl⟩
  | cons entry entries ih =>
    rw [List.foldlM_cons, List.foldlM_cons, normalizeNext, completeCall]
    cases Assembly.normalize host entry.2 with
    | error failure => rfl
    | ok call =>
      rw [List.forall_mem_cons] at inside
      by_cases repeated : calls.any (·.id = call.id)
      · rw [ok_bind, ok_bind, if_pos repeated, if_pos repeated]
        rfl
      · rw [ok_bind, ok_bind, if_neg repeated, if_neg repeated,
          emit_of_accepted (refused_completed inside.1)]
        exact ih inside.2 (calls ++ [call])

theorem reads_started (host : Host) :
    Reads host [] ((started host).yielded (.responseStarted · host.responseId)) :=
  ⟨rfl, (ite_self _).symm, rfl, rfl, fun _ => rfl⟩

theorem written_textOf (items : List Item) : ∀ part ∈ items.filterMap textOf, part ≠ "" := by
  intro part mem
  obtain ⟨item, -, here⟩ := List.mem_filterMap.mp mem
  cases item with
  | content text => exact (given_eq_some.mp here).2
  | _ => cases here

/-- The end of a stream that was read without a fault. -/
theorem respond_reads {items : List Item} (reads : Reads host items s) (calls : List ToolCall)
    (sequence : Nat) (emitted : List ModelEvent) :
    respond host { s with sequence, emitted } calls =
      if (contentOf (carried items).text).isEmpty ∧ calls.isEmpty then
        .error (.modelProtocol .emptyModelResponse
          "Provider completed without text or a tool call.")
      else do
        let message ← assistantMessage (contentOf (carried items).text) calls
          (given (some (keptReasoning host (carried items)))) host.now host.messageId
        return ⟨message, (carried items).finishReason,
          (carried items).usage.map RawUsage.normalized⟩ := by
  have written : ∀ part ∈ s.textParts, part ≠ "" := reads.texts ▸ written_textOf items
  have content : ({ s with sequence, emitted } : Assembly).answer =
      contentOf (carried items).text := by
    rw [answer_eq (s := { s with sequence, emitted }) written, carried]
    dsimp only
    rw [reads.texts]
  have reasoning : String.join s.reasoningParts = keptReasoning host (carried items) := by
    rw [reads.reasonings, keptReasoning, carried]
    split_ifs <;> rfl
  rw [respond, content]
  dsimp only
  rw [reasoning, reads.finishReason, reads.usage]
  rfl

theorem completed_map (s : Assembly) (outcome : Except Failure ModelResponse) :
    (do
      let response ← outcome
      let s ← s.emit (.responseCompleted · response)
      return (s.emitted, response) : Except Failure (List ModelEvent × ModelResponse)).map
        Prod.snd = outcome := by
  cases outcome <;> rfl

/-- The adapter on a sequence whose indices keep their ids and names. -/
theorem streamChunks_eq {chunks : List Chunk} (steady : Steady (streamItems chunks)) :
    match firstFault host chunks with
    | some kind => ∃ failure, streamChunks host chunks = .error failure ∧ failure.kind = kind
    | none => (streamChunks host chunks).map Prod.snd = reply host (carried (streamItems chunks)) := by
  have accepted : (ModelEvent.responseStarted 0 host.responseId).refused = none :=
    if_neg host.identified.1
  have read := @read_rest host [] ((started host).yielded (.responseStarted · host.responseId))
    (streamItems chunks) steady nofun (reads_started host) nofun
  rw [firstFault, streamChunks, emit_of_accepted accepted, ok_bind]
  simp only [receiveChunks_items]
  cases faulty : faultAfter host [] (streamItems chunks) with
  | some kind =>
    rw [faulty] at read
    obtain ⟨failure, raised, same⟩ := read
    refine ⟨failure, ?_, same⟩
    rw [raised]
    rfl
  | none =>
    rw [faulty] at read
    obtain ⟨s, ended, sound, reads, timely⟩ := read
    rw [List.nil_append] at reads timely
    dsimp only
    rw [ended, ok_bind, reply, ← sortedCalls_eq reads timely]
    have inside : ∀ entry ∈ s.sortedCalls, 0 ≤ entry.1 := fun entry mem =>
      (sound entry.1 entry.2 (Dict.get_eq_some_iff.mpr ((sortedCalls_perm s).mem_iff.mp mem))).1
    have completed := @completeCalls_eq host s _ inside []
    cases made : s.sortedCalls.foldlM (normalizeNext host) [] with
    | error failure =>
      rw [made] at completed
      rw [completed]
      rfl
    | ok new =>
      rw [made] at completed
      obtain ⟨sequence, emitted, completed⟩ := completed
      rw [completed, ok_bind, ok_bind]
      dsimp only
      rw [respond_reads reads]
      exact completed_map _ _

theorem itemFault_kind {item : Item} {kind : Kind} (h : itemFault host before item = some kind) :
    kind = .valueError ∨ kind = .modelProtocol .invalidToolCallDeltaState := by
  cases item with
  | usage raw =>
    rw [itemFault] at h
    split_ifs at h
    exact .inl (Option.some.inj h).symm
  | fragment fragment =>
    rw [itemFault] at h
    split at h
    · split_ifs at h
      exact .inl (Option.some.inj h).symm
    · split_ifs at h
      exact .inr (Option.some.inj h).symm
  | id _ | reason _ | reasoning _ | content _ => cases h

theorem faultAfter_kind {rest : List Item} {kind : Kind}
    (h : faultAfter host before rest = some kind) :
    kind = .valueError ∨ kind = .modelProtocol .invalidToolCallDeltaState := by
  induction rest generalizing before with
  | nil => cases h
  | cons item rest ih =>
    obtain here | ⟨-, later⟩ := Option.or_eq_some_iff.mp h
    · exact itemFault_kind here
    · exact ih later

/-- A failure that reading a steady sequence does not meet. -/
def Later (failure : Failure) : Prop :=
  failure.kind ≠ .valueError ∧ failure.kind ≠ .modelProtocol .invalidToolCallDeltaState

theorem normalize_later {state : CallState} {failure : Failure}
    (h : Assembly.normalize host state = .error failure) : Later failure := by
  rw [Assembly.normalize] at h
  by_cases unnamed : state.name = ""
  · rw [if_pos unnamed] at h
    cases h
    exact ⟨nofun, nofun⟩
  · rw [if_neg unnamed] at h
    split at h
    · cases h
      exact ⟨nofun, nofun⟩
    · cases h
      exact ⟨nofun, nofun⟩
    · split_ifs at h
      cases h
      exact ⟨nofun, nofun⟩
    · cases h
      exact ⟨nofun, nofun⟩

theorem bind_eq_error {ε α β : Type} {value : Except ε α} {f : α → Except ε β} {failure : ε}
    (h : value >>= f = .error failure) :
    value = .error failure ∨ ∃ a, value = .ok a ∧ f a = .error failure := by
  cases value with
  | error raised => exact .inl (congrArg _ (Except.error.inj h))
  | ok a => exact .inr ⟨a, rfl, h⟩

theorem normalizeAll_later {entries : List (Int × CallState)} {calls : List ToolCall}
    {failure : Failure} (h : entries.foldlM (normalizeNext host) calls = .error failure) :
    Later failure := by
  induction entries generalizing calls with
  | nil => cases h
  | cons entry entries ih =>
    rw [List.foldlM_cons] at h
    obtain here | ⟨next, -, later⟩ := bind_eq_error h
    · obtain unmade | ⟨call, -, repeated⟩ := bind_eq_error here
      · exact normalize_later unmade
      · split_ifs at repeated
        · cases repeated
          exact ⟨nofun, nofun⟩
        · cases repeated
    · exact ih later

theorem assistantMessage_later {content : List MessageContent} {toolCalls : List ToolCall}
    {reasoningContent : Option String} {timestamp : PyFloat} {messageId : String} {failure : Failure}
    (h : assistantMessage content toolCalls reasoningContent timestamp messageId = .error failure) :
    Later failure := by
  rw [assistantMessage] at h
  split_ifs at h <;> cases h <;> exact ⟨by rintro ⟨⟩, by rintro ⟨⟩⟩

theorem reply_later {carried : Carried} {failure : Failure}
    (h : reply host carried = .error failure) : Later failure := by
  obtain unmade | ⟨calls, -, h⟩ := bind_eq_error h
  · exact normalizeAll_later unmade
  · split_ifs at h
    · cases h
      exact ⟨nofun, nofun⟩
    · obtain refused | ⟨message, -, h⟩ := bind_eq_error h
      · exact assistantMessage_later refused
      · cases h

/-- A host that draws other identities for the response and for its message. -/
def redrawn (host : Host) (responseId messageId : String)
    (identified : responseId ≠ "" ∧ messageId ≠ "") : Host :=
  { host with responseId, messageId, identified }

/-- The same response but for its message id, or a failure of the same kind. -/
def SameEnd : Except Failure (List ModelEvent × ModelResponse) →
    Except Failure (List ModelEvent × ModelResponse) → Prop
  | .ok (_, response), .ok (_, other) => identifiedAs (some other.message.messageId) response = other
  | .error failure, .error other => failure.kind = other.kind
  | _, _ => False

instance : ∀ first second, Decidable (SameEnd first second)
  | .ok _, .ok _ => inferInstanceAs (Decidable (_ = _))
  | .error _, .error _ => inferInstanceAs (Decidable (_ = _))
  | .ok _, .error _ | .error _, .ok _ => inferInstanceAs (Decidable False)

theorem faultAfter_redrawn {responseId messageId : String}
    {identified : responseId ≠ "" ∧ messageId ≠ ""} (rest : List Item) :
    faultAfter (redrawn host responseId messageId identified) before rest =
      faultAfter host before rest := by
  induction rest generalizing before with
  | nil => rfl
  | cons item rest ih =>
    rw [faultAfter, faultAfter, ih]
    cases item <;> rfl

theorem assistantMessage_redrawn {content : List MessageContent} {toolCalls : List ToolCall}
    {reasoningContent : Option String} {timestamp : PyFloat} {messageId other : String}
    (identified : messageId ≠ "") (identified' : other ≠ "") :
    assistantMessage content toolCalls reasoningContent timestamp other =
      (assistantMessage content toolCalls reasoningContent timestamp messageId).map
        fun message => { message with messageId := other } := by
  rw [assistantMessage, assistantMessage]
  dsimp only
  split_ifs <;> rfl

theorem reply_redrawn {responseId messageId : String}
    (identified : responseId ≠ "" ∧ messageId ≠ "") (carried : Carried) :
    reply (redrawn host responseId messageId identified) carried =
      (reply host carried).map (identifiedAs (some messageId)) := by
  change ((carried.calls.map (callEntry host)).foldlM (normalizeNext host) [] >>= _) = _
  rw [reply]
  cases (carried.calls.map (callEntry host)).foldlM (normalizeNext host) [] with
  | error failure => rfl
  | ok calls =>
    rw [ok_bind, ok_bind]
    by_cases empty : (contentOf carried.text).isEmpty ∧ calls.isEmpty
    · rw [if_pos empty, if_pos empty]
      rfl
    · rw [if_neg empty, if_neg empty]
      dsimp only [redrawn]
      rw [assistantMessage_redrawn host.identified.2 identified.2]
      change (Except.map _ (assistantMessage _ _ (given (some (keptReasoning host carried))) _ _) >>=
        _) = _
      cases assistantMessage (contentOf carried.text) calls
        (given (some (keptReasoning host carried))) host.now host.messageId <;> rfl

theorem sameEnd_of_reply {first second : Except Failure (List ModelEvent × ModelResponse)}
    {outcome : Except Failure ModelResponse} {messageId : String}
    (one : first.map Prod.snd = outcome)
    (two : second.map Prod.snd = outcome.map (identifiedAs (some messageId))) :
    SameEnd first second := by
  subst one
  cases first with
  | error failure =>
    cases second with
    | error other => exact congrArg Failure.kind (Except.error.inj two).symm
    | ok result => cases two
  | ok result =>
    cases second with
    | error other => cases two
    | ok other =>
      have response : other.2 = identifiedAs (some messageId) result.2 := Except.ok.inj two
      rw [SameEnd, response]
      rfl

theorem SameEnd.comm {first second : Except Failure (List ModelEvent × ModelResponse)}
    {failure : Failure} (raised : first = .error failure) (h : SameEnd first second) :
    SameEnd second first := by
  subst raised
  cases second with
  | error other => exact h.symm
  | ok result => exact h

/-- What ends like a reply that was read does not end with a fault of reading. -/
theorem SameEnd.later {first : Except Failure (List ModelEvent × ModelResponse)}
    {carried : Carried} {change : ModelResponse → ModelResponse}
    (one : first.map Prod.snd = (reply host carried).map change) {failure : Failure}
    (h : SameEnd first (.error failure)) : Later failure := by
  cases first with
  | ok result => exact h.elim
  | error other =>
    have kinds : other.kind = failure.kind := h
    cases replied : reply host carried with
    | ok response =>
      rw [replied] at one
      cases one
    | error unmade =>
      rw [replied] at one
      cases one
      rw [Later, ← kinds]
      exact reply_later replied

theorem not_later {chunks : List Chunk} {failure : Failure}
    (faulty : firstFault host chunks = some failure.kind) : ¬Later failure := by
  intro later
  obtain value | changed := faultAfter_kind faulty
  · exact later.1 value
  · exact later.2 changed

/-- Two chunk sequences that carry the same reply end alike exactly when the first thing that goes
wrong in them, if anything, is of the same kind. -/
theorem chunking_irrelevant_iff {first second : List Chunk}
    (same : carried (streamItems first) = carried (streamItems second))
    (steady : Steady (streamItems first)) (steady' : Steady (streamItems second))
    {responseId messageId : String} (identified : responseId ≠ "" ∧ messageId ≠ "") :
    SameEnd (streamChunks host first)
        (streamChunks (redrawn host responseId messageId identified) second) ↔
      firstFault host first = firstFault host second := by
  have one := @streamChunks_eq host first steady
  have two := @streamChunks_eq (redrawn host responseId messageId identified) second steady'
  rw [show firstFault (redrawn host responseId messageId identified) second = firstFault host second
    from faultAfter_redrawn _, ← same, reply_redrawn] at two
  cases fault : firstFault host first with
  | none =>
    rw [fault] at one
    cases fault' : firstFault host second with
    | none =>
      rw [fault'] at two
      exact iff_of_true (sameEnd_of_reply one two) rfl
    | some kind =>
      rw [fault'] at two
      obtain ⟨failure, raised, rfl⟩ := two
      refine iff_of_false (fun alike => not_later fault' ?_) nofun
      rw [raised] at alike
      exact @SameEnd.later host _ _ id (by rw [one, Except.map_id]; rfl) _ alike
  | some kind =>
    rw [fault] at one
    obtain ⟨failure, raised, rfl⟩ := one
    rw [raised]
    cases fault' : firstFault host second with
    | none =>
      rw [fault'] at two
      refine iff_of_false (fun alike => not_later fault ?_) nofun
      exact (alike.comm rfl).later two
    | some kind =>
      rw [fault'] at two
      obtain ⟨failure', raised', rfl⟩ := two
      rw [raised']
      exact Option.some_inj.symm

/-- One call and one text, in one piece each and cut in two. -/
def wholeReply : List Chunk :=
  [textChunk "look", callChunk 0 (some "a") (some "lookup") (some "\x7b\"value\":1\x7d")]

def cutReply : List Chunk :=
  [callChunk 0 (some "a") none (some "\x7b\"value\""), textChunk "lo",
    callChunk 0 none (some "lookup") (some ":1\x7d"), textChunk "ok"]

theorem chunking_irrelevant_cutReply :
    SameEnd (streamChunks lookupHost wholeReply)
      (streamChunks (redrawn lookupHost "r2" "m2" (by decide)) cutReply) :=
  (chunking_irrelevant_iff (by decide +kernel) (by decide +kernel) (by decide +kernel) _).mpr
    (by decide +kernel)

/-- The name is empty in the first fragment and comes with the second. -/
def lateName : List Chunk :=
  [textChunk "look", callChunk 0 (some "a") (some "") (some "\x7b\"value\""),
    callChunk 0 none (some "lookup") (some ":1\x7d")]

theorem late_name_differs :
    carried (streamItems wholeReply) = carried (streamItems lateName) ∧
      Steady (streamItems wholeReply) ∧ Steady (streamItems lateName) ∧
      ¬SameEnd (streamChunks lookupHost wholeReply)
        (streamChunks (redrawn lookupHost "r2" "m2" (by decide)) lateName) := by
  decide +kernel

end RoboAgent.StreamChunking
