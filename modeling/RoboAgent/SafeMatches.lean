import RoboAgent.TrackerUpdates

/-! How safe a confident match is. The assignment goes through the pairs in the order of their cost,
so a detection that takes part in it never loses a track to a dearer one, unless it has another
track that is no dearer. A detection that the margin leaves undecided takes no part in it. -/

namespace RoboAgent.SafeMatches
open RoboAgent.KeyedLists RoboAgent.Dicts RoboAgent.GreedyPairs RoboAgent.FalliblePrograms
open RoboAgent.VisionTypes RoboAgent.VisualTracking RoboAgent.TrackerUpdates

variable {F K : Type} [Arithmetic F]

section Table
variable {lib : Library F K} {policy : TrackingPolicy F} {tracks : List (TrackId × Track F)}
  {spatial : Option (SpatialResults F)} {objects : List (VisualDetection F)}
  {found : Candidates F}

/-- What a detection pays for a track, if it may continue it. -/
def price (lib : Library F K) (policy : TrackingPolicy F) (tracks : List (TrackId × Track F))
    (spatial : Option (SpatialResults F)) (d : VisualDetection F) (tid : TrackId) : Option F :=
  (tracks.lookup tid).bind fun track =>
    match cost lib policy track d (spatial.bind (·.position d.localId)) with
    | .ok c => c
    | .error _ => none

theorem mem_choices_iff {listed : Choices F} (distinct : (keys tracks).Nodup)
    {d : VisualDetection F} (h : choices lib policy tracks spatial d = .ok listed) {c : F}
    {tid : TrackId} : (c, tid) ∈ listed ↔ price lib policy tracks spatial d tid = some c := by
  rw [choices] at h
  obtain ⟨costs, computed, h⟩ := bind_eq_ok h
  cases h
  rw [List.mem_insertionSort, List.mem_filterMap, price, Option.bind_eq_some_iff]
  constructor
  · rintro ⟨_, mem, rfl⟩
    obtain ⟨⟨tid', track⟩, inside, made⟩ := (mem_mapM_iff computed).mp mem
    obtain ⟨priced, same, made⟩ := map_eq_ok made
    obtain ⟨c', rfl, pair⟩ := Option.map_eq_some_iff.mp made
    cases pair
    refine ⟨track, lookup_of_mem distinct inside, ?_⟩
    rw [same]
  · rintro ⟨track, has, paid⟩
    refine ⟨some (c, tid), (mem_mapM_iff computed).mpr ⟨(tid, track), mem_of_lookup has, ?_⟩, rfl⟩
    split at paid
    · rename_i c' same
      rw [same, paid]
      rfl
    · cases paid

theorem keys_candidates (h : candidates lib policy tracks spatial objects = .ok found) :
    keys found = objects.map VisualDetection.localId := by
  rw [candidates, mapM_eq_ok_iff] at h
  induction h with
  | nil => rfl
  | cons made _ ih =>
    obtain ⟨listed, -, rfl⟩ := map_eq_ok made
    exact congrArg _ ih

theorem choicesOf_eq (h : candidates lib policy tracks spatial objects = .ok found)
    (distinct : (objects.map VisualDetection.localId).Nodup) {d : VisualDetection F}
    (mem : d ∈ objects) :
    choices lib policy tracks spatial d = .ok (choicesOf found d.localId) := by
  obtain ⟨_, made⟩ := ok_of_mapM h d mem
  obtain ⟨listed, computed, rfl⟩ := map_eq_ok made
  have has : found.lookup d.localId = some listed :=
    lookup_of_mem (keys_candidates h ▸ distinct) ((mem_mapM_iff h).mpr ⟨d, mem, made⟩)
  rw [computed, choicesOf, has]
  rfl

theorem mem_edges_iff {c : F} {tid : TrackId} {det : String} (distinct : (keys found).Nodup) :
    (c, tid, det) ∈ edges found ↔ (c, tid) ∈ choicesOf found det := by
  rw [edges, List.mem_insertionSort, List.mem_flatMap]
  constructor
  · rintro ⟨⟨det', listed⟩, mem, inside⟩
    obtain ⟨⟨c', tid'⟩, chosen, same⟩ := List.mem_map.mp inside
    cases same
    rw [choicesOf, lookup_of_mem distinct mem]
    exact chosen
  · intro chosen
    rw [choicesOf] at chosen
    cases has : found.lookup det with
    | none =>
      rw [has] at chosen
      cases chosen
    | some listed =>
      rw [has] at chosen
      exact ⟨(det, listed), mem_of_lookup has, List.mem_map.mpr ⟨(c, tid), chosen, rfl⟩⟩

theorem det_of_edge {c : F} {tid : TrackId} {det : String} (edge : (c, tid, det) ∈ edges found) :
    det ∈ keys found := by
  rw [edges, List.mem_insertionSort, List.mem_flatMap] at edge
  obtain ⟨entry, mem, inside⟩ := edge
  obtain ⟨choice, -, same⟩ := List.mem_map.mp inside
  cases same
  exact List.mem_map.mpr ⟨entry, mem, rfl⟩

theorem edges_sorted (found : Candidates F) :
    (edges found).Pairwise fun e f => e.1 ≤ f.1 := by
  have sorted : (edges found).Pairwise
      fun e f => toLex (e.1, toLex e.2) ≤ toLex (f.1, toLex f.2) := List.pairwise_insertionSort ..
  exact sorted.imp fun le => (Prod.Lex.le_iff.mp le).elim le_of_lt fun same => same.1.le

theorem fst_assigned (unclear : List String) (found : Candidates F) :
    (keys (assigned unclear found)).Nodup := fst_assign _

theorem mem_assigned {unclear : List String} {det : String} {tid : TrackId}
    (mem : (det, tid) ∈ assigned unclear found) :
    det ∉ unclear ∧ ∃ c, (c, tid, det) ∈ edges found := by
  obtain ⟨⟨c, tid', det'⟩, inside, same⟩ := List.mem_map.mp ((assign_sublist _).subset mem)
  cases same
  obtain ⟨inside, clear⟩ := List.mem_filter.mp inside
  exact ⟨of_decide_eq_true clear, c, inside⟩

/-- A clear detection that would pay less for a taken track has a track that is no dearer. -/
theorem assigned_cheaper {unclear : List String}
    (unique : ∀ c c' tid det, (c, tid, det) ∈ edges found → (c', tid, det) ∈ edges found → c = c')
    {det det' : String} {tid : TrackId} {c c' : F} (taken : (det, tid) ∈ assigned unclear found)
    (own : (c, tid, det) ∈ edges found) (other : (c', tid, det') ∈ edges found)
    (clear : det' ∉ unclear) (cheaper : c' < c) :
    ∃ tid' c'', (det', tid') ∈ assigned unclear found ∧ (c'', tid', det') ∈ edges found ∧
      c'' ≤ c' := by
  let cost (pair : String × TrackId) : F :=
    (((edges found).find? fun edge => edge.2.2 = pair.1 ∧ edge.2.1 = pair.2).map Prod.fst).getD 0
  have priced {c : F} {tid : TrackId} {det : String} (edge : (c, tid, det) ∈ edges found) :
      cost (det, tid) = c := by
    cases first : (edges found).find? fun edge => edge.2.2 = det ∧ edge.2.1 = tid with
    | none =>
      have none := List.find?_eq_none.mp first _ edge
      exact absurd (decide_eq_true ⟨rfl, rfl⟩) none
    | some edge' =>
      have inside := List.mem_of_find?_eq_some first
      have ends := List.find?_some first
      obtain ⟨c', tid', det'⟩ := edge'
      obtain ⟨rfl, rfl⟩ := of_decide_eq_true ends
      have same : cost (det', tid') = c' := by
        dsimp only [cost]
        rw [first]
        rfl
      rw [same]
      exact unique c' c tid' det' inside edge
  have sorted : (((edges found).filter fun edge => edge.2.2 ∉ unclear).map fun edge =>
      (edge.2.2, edge.2.1)).Pairwise fun p q => cost p ≤ cost q := by
    rw [List.pairwise_map]
    refine ((edges_sorted found).filter _).imp_of_mem fun {e f} inE inF le => ?_
    rw [priced (List.mem_of_mem_filter inE), priced (List.mem_of_mem_filter inF)]
    exact le
  have offered : (det', tid) ∈ ((edges found).filter fun edge => edge.2.2 ∉ unclear).map fun edge =>
      (edge.2.2, edge.2.1) :=
    List.mem_map.mpr ⟨(c', tid, det'), List.mem_filter.mpr ⟨other, decide_eq_true clear⟩, rfl⟩
  have less : cost (det', tid) < cost (det, tid) := by
    rwa [priced other, priced own]
  obtain ⟨tid', has, bound⟩ := taken_cheaper sorted taken offered less
  obtain ⟨-, c'', edge⟩ := mem_assigned has
  refine ⟨tid', c'', has, edge, ?_⟩
  rwa [priced other, priced edge] at bound

variable {settings : Settings F} {clockId : String} {unclear : List String}
  {associations : List Association}

theorem mem_assigned_of_matched (h : List.Forall₂
      (fun d => Associates settings clockId found unclear (assigned unclear found) d.localId)
      objects associations) {det : String} {tid : TrackId}
    (matched : ⟨det, .matched, some tid, []⟩ ∈ associations) :
    (det, tid) ∈ assigned unclear found := by
  obtain ⟨d, -, associates⟩ := exists_of_mem_right h _ matched
  cases associates with
  | matched _ _ has => exact mem_of_lookup has

theorem matched_of_mem_assigned (h : List.Forall₂
      (fun d => Associates settings clockId found unclear (assigned unclear found) d.localId)
      objects associations) {d : VisualDetection F} {tid : TrackId} (mem : d ∈ objects)
    (has : (d.localId, tid) ∈ assigned unclear found) :
    ⟨d.localId, .matched, some tid, []⟩ ∈ associations := by
  have known := lookup_of_mem (fst_assigned unclear found) has
  have clear := (mem_assigned has).1
  obtain ⟨a, inside, associates⟩ := exists_of_mem_left h d mem
  cases associates with
  | unclear tids hazy =>
    obtain hazy | ⟨free, -⟩ := hazy
    · exact absurd hazy clear
    · rw [known] at free
      cases free
  | matched tid' _ has' =>
    rw [known] at has'
    cases has'
    exact inside
  | new n _ free =>
    rw [known] at free
    cases free

end Table

variable {lib : Library F K} {settings : Settings F} {s s' : VisualTracker F}
  {capture : Capture K} {analysis : SemanticAnalysis F} {spatial : Option (SpatialResults F)}
  {result : TrackingResult}

/-- What a detection of the capture pays for a track that is still active. -/
def currentPrice (lib : Library F K) (settings : Settings F) (s : VisualTracker F)
    (capture : Capture K) (spatial : Option (SpatialResults F)) (d : VisualDetection F)
    (tid : TrackId) : Option F :=
  price lib settings.policy (active settings.limits capture.capturedAt.nanoseconds s.tracks)
    spatial d tid

/-- The margin left the detection undecided: its two cheapest tracks lie within it, or the detection
lies within it of the cheapest of several for one track. -/
def Undecided (lib : Library F K) (settings : Settings F) (s : VisualTracker F)
    (capture : Capture K) (analysis : SemanticAnalysis F) (spatial : Option (SpatialResults F))
    (d : VisualDetection F) : Prop :=
  ∃ found, candidates lib settings.policy
      (active settings.limits capture.capturedAt.nanoseconds s.tracks) spatial
      analysis.scene.objects = .ok found ∧
    d.localId ∈ ambiguous settings.policy.ambiguityMargin found
      (active settings.limits capture.capturedAt.nanoseconds s.tracks)

def Matches (result : TrackingResult) (d : VisualDetection F) (tid : TrackId) : Prop :=
  ⟨d.localId, .matched, some tid, []⟩ ∈ result.associations

/-- No detection, apart from the exempt ones, pays less for a track than the one that matched it,
unless it matched a track that costs it no more. -/
def SafeApartFrom (exempt : VisualDetection F → Prop)
    (price : VisualDetection F → TrackId → Option F) (objects : List (VisualDetection F))
    (result : TrackingResult) : Prop :=
  ∀ d ∈ objects, ∀ tid c, Matches result d tid → price d tid = some c →
    ∀ other ∈ objects, other.localId ≠ d.localId → ¬exempt other →
      ∀ c', price other tid = some c' → c' < c →
        ∃ tid' c'', Matches result other tid' ∧ price other tid' = some c'' ∧
          c'' ≤ c'

theorem active_distinct (limits : VisionLimits) (now : Nat) (tracks : Dict TrackId (Track F)) :
    (keys (active limits now tracks)).Nodup :=
  tracks.distinct.sublist (List.filter_sublist.map _)

/-- A match is safe with respect to every detection that the ambiguity margin decided. -/
theorem matched_safe
    (h : exec (update lib settings capture analysis spatial) s = (.ok result, s'))
    (updated : result.status = .updated) :
    SafeApartFrom (Undecided lib settings s capture analysis spatial)
      (currentPrice lib settings s capture spatial) analysis.scene.objects result := by
  obtain ⟨-, other⟩ | ⟨found, next, advances, same, -⟩ := update_cases h
  · exact absurd updated (other result rfl)
  cases same
  obtain ⟨start, made, -, -⟩ := advances.associated
  have distinct := active_distinct settings.limits capture.capturedAt.nanoseconds s.tracks
  have dets : (keys found).Nodup := keys_candidates advances.candidates ▸ analysis.scene.distinct
  have edge_iff {d : VisualDetection F} (mem : d ∈ analysis.scene.objects) {c : F}
      {tid : TrackId} : (c, tid, d.localId) ∈ edges found ↔
        currentPrice lib settings s capture spatial d tid = some c := by
    rw [mem_edges_iff dets]
    exact mem_choices_iff distinct (choicesOf_eq advances.candidates analysis.scene.distinct mem)
  intro d mem tid c matched paid other mem' _ clear c' paid' cheaper
  have unique (c c' : F) (tid : TrackId) (det : String) (one : (c, tid, det) ∈ edges found)
      (two : (c', tid, det) ∈ edges found) : c = c' := by
    have known : det ∈ keys found := det_of_edge one
    rw [keys_candidates advances.candidates] at known
    obtain ⟨d, mem, rfl⟩ := List.mem_map.mp known
    have first := (edge_iff mem).mp one
    rw [(edge_iff mem).mp two] at first
    exact (Option.some.inj first).symm
  have decided : other.localId ∉ ambiguous settings.policy.ambiguityMargin found
      (active settings.limits capture.capturedAt.nanoseconds s.tracks) :=
    fun hazy => clear ⟨found, advances.candidates, hazy⟩
  have taken := mem_assigned_of_matched made.associated matched
  obtain ⟨tid', c'', has, edge, bound⟩ := assigned_cheaper unique taken ((edge_iff mem).mpr paid)
    ((edge_iff mem').mpr paid') decided cheaper
  refine ⟨tid', c'', ?_, (edge_iff mem').mp edge, bound⟩
  have inside : other ∈ inOrder analysis := (List.mem_insertionSort _).mpr mem'
  exact matched_of_mem_assigned made.associated inside has

/-- Two cups that stand 42 thousandths of the image apart have been seen. -/
def twoCups : VisualTracker Rat :=
  after sampleLibrary sampleSettings .initial
    [.activateEpoch "clock", sampleCall "clock" 0 [cup "a" 480, cup "b" 522]]

def left : VisualDetection Rat := cup "left" 440

def middle : VisualDetection Rat := cup "middle" 500

def firstTrack : TrackId := serial sampleSettings "clock" 1

/-- What the tracker says of one cup between the two and one further left. -/
def crowded : TrackingResult where
  captureRef := (sampleCapture "clock" 1).ref
  status := .updated
  authoritativeAnalysisId := some "analysis"
  matchingInputDigest := some "capture2"
  associations := [
    ⟨"left", .matched, some firstTrack, []⟩,
    ⟨"middle", .ambiguous, none, [firstTrack, serial sampleSettings "clock" 2]⟩]
  reason := none
  inputDigest := some "capture2"

def crowdedUpdate : Program (VisualTracker Rat) Raised TrackingResult :=
  update sampleLibrary sampleSettings (sampleCapture "clock" 1)
    (sampleAnalysis "clock" 1 [left, middle] (by decide)) none

theorem exec_crowdedUpdate : (exec crowdedUpdate twoCups).1 = .ok crowded := by decide +kernel

/-- A detection between two tracks is undecided, and the nearer of the two goes to a detection that
is further away, as a confident match. -/
theorem undecided_cedes_nearest :
    (exec crowdedUpdate twoCups).1 = .ok crowded ∧ crowded.status = .updated ∧
    ¬SafeApartFrom (fun _ => False)
      (currentPrice sampleLibrary sampleSettings twoCups (sampleCapture "clock" 1) none)
      [left, middle] crowded := by
  refine ⟨exec_crowdedUpdate, rfl, fun safe => ?_⟩
  have paid : currentPrice sampleLibrary sampleSettings twoCups (sampleCapture "clock" 1) none left
      firstTrack = some (14 / 75) := by decide +kernel
  have paid' : currentPrice sampleLibrary sampleSettings twoCups (sampleCapture "clock" 1) none
      middle firstTrack = some (111 / 1100) := by decide +kernel
  obtain ⟨tid, -, matched, -⟩ := safe left List.mem_cons_self firstTrack _ List.mem_cons_self paid
    middle (List.mem_cons_of_mem _ (List.mem_singleton_self _)) (by decide) id _ paid'
    (by decide +kernel)
  rw [Matches, crowded, List.mem_cons, List.mem_singleton] at matched
  obtain same | same := matched
  · have named : middle.localId = "left" := congrArg Association.detectionId same
    exact absurd named (by decide)
  · have status : AssociationStatus.matched = .ambiguous := congrArg Association.status same
    cases status

theorem crowded_safe :
    SafeApartFrom (Undecided sampleLibrary sampleSettings twoCups (sampleCapture "clock" 1)
        (sampleAnalysis "clock" 1 [left, middle] (by decide)) none)
      (currentPrice sampleLibrary sampleSettings twoCups (sampleCapture "clock" 1) none)
      [left, middle] crowded :=
  matched_safe (Prod.ext exec_crowdedUpdate rfl) rfl

end RoboAgent.SafeMatches
