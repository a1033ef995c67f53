import RoboAgent.WorldGrounding
import RoboAgent.WorldRetry

/-! What a World knows does not depend on the order of its commits. The entry of a subject, predicate
and scope is the same for any order of its claims, up to the order of the keys in their values. -/

namespace RoboAgent.WorldOrders
open RoboAgent.FrozenJson RoboAgent.SortedJson RoboAgent.JsonText RoboAgent.JsonIdentity
open RoboAgent.KeyedLists RoboAgent.Dicts RoboAgent.FalliblePrograms
open RoboAgent.WorldTypes RoboAgent.WorldStore RoboAgent.WorldStore.World RoboAgent.WorldCommit
open RoboAgent.WorldInvariant RoboAgent.WorldRuns RoboAgent.WorldRetry RoboAgent.Runs
open RoboAgent.WorldSnapshots RoboAgent.WorldGrounding

section Keys
variable {lib : Library}

def keyOf (lib : Library) : ClaimValue → String
  | .entity reference => "entity:" ++ reference.id
  | .json value => "json:" ++ dataDigest lib value.value

def printedValue : ClaimValue → Bool
  | .entity _ => true
  | .json value => printable value.value

theorem valueKey_eq {value : ClaimValue} (printed : printedValue value = true) :
    valueKey lib value = .ok (keyOf lib value) := by
  cases value with
  | entity reference => rfl
  | json value =>
    rw [printedValue] at printed
    rw [valueKey, canonicalJsonDigest, if_pos printed]
    rfl

theorem entity_ne_json (id digest : String) : "entity:" ++ id ≠ "json:" ++ digest := by
  intro same
  have texts := congrArg String.toList same
  rw [String.toList_append, String.toList_append] at texts
  have heads : 'e' = 'j' := (List.cons.inj texts).1
  exact absurd heads (by decide)

/-- Values have the same key if they are the same up to the order of keys. -/
theorem keyOf_eq_iff (correct : lib.Correct) {x y : ClaimValue} :
    keyOf lib x = keyOf lib y ↔ SameValue x y := by
  cases x with
  | json v =>
    cases y with
    | json w =>
      rw [keyOf, keyOf, String.append_right_inj, dataDigest_injective correct v.frozen w.frozen]
      exact same_value v w
    | entity e => exact iff_of_false (fun same => entity_ne_json _ _ same.symm) id
  | entity e =>
    cases y with
    | json w => exact iff_of_false (entity_ne_json _ _) id
    | entity e' =>
      rw [keyOf, keyOf, String.append_right_inj]
      exact ⟨EntityRef.ext, congrArg EntityRef.id⟩

end Keys

section Pure
variable (lib : Library) (times : Dict String (Option ObservationTime)) (grounded : List ClaimRef)

def claimKey (claim : Claim) : String := keyOf lib claim.value

/-- The verdict on claims whose values have keys. -/
def verdict (live expired unresolved ungrounded : List Claim) :
    WorldStatus × List Claim × ClaimValue :=
  match live with
  | first :: _ =>
    if 1 < (live.map (claimKey lib)).dedup.length then (.conflicted, live ++ unresolved, noValue)
    else if unresolved.any fun claim => !(live.map (claimKey lib)).contains (claimKey lib claim) then
      (.unknown, live ++ unresolved, noValue)
    else (.known, live, first.value)
  | [] =>
    if unresolved ≠ [] then (.unknown, expired ++ unresolved ++ ungrounded, noValue)
    else if expired ≠ [] then (.stale, expired, noValue)
    else (.unknown, ungrounded, noValue)

def selected (claims : List Claim) : List Claim :=
  claims.filter (isSelected times grounded (heads times grounded claims))

def verdictOn (claims : List Claim) : WorldStatus × List Claim × ClaimValue :=
  verdict lib (groundedIn times grounded .live (selected times grounded claims))
    (groundedIn times grounded .expired (selected times grounded claims))
    (groundedIn times grounded .unresolved (selected times grounded claims))
    ((selected times grounded claims).filter fun claim => !isGrounded grounded claim)

def keyed (claims : List Claim) : List (String × Claim) :=
  claims.map fun claim => (claimKey lib claim, claim)

def resolved (key : WorldEntryKey) (claims : List Claim) : WorldEntry where
  subject := key.subject
  predicate := key.predicate
  status := (verdictOn lib times grounded claims).1
  value := (verdictOn lib times grounded claims).2.2
  candidates := candidatesOf (keyed lib (verdictOn lib times grounded claims).2.1)
  supportingClaims := (provenance (verdictOn lib times grounded claims).2.1).refs
  evidenceRefs := (provenance (verdictOn lib times grounded claims).2.1).evidence
  validAt := (provenance (verdictOn lib times grounded claims).2.1).validAt
  scope := key.scope

end Pure

section
variable {lib : Library} {times : Dict String (Option ObservationTime)} {grounded : List ClaimRef}
  {claims live expired unresolved ungrounded : List Claim}

theorem claimKey_eq (printed : ∀ claim ∈ claims, printedValue claim.value = true) :
    ∀ claim ∈ claims, valueKey lib claim.value = .ok (claimKey lib claim) :=
  fun claim mem => valueKey_eq (printed claim mem)

theorem judge_eq (printed : ∀ claim ∈ live, printedValue claim.value = true)
    (printed' : ∀ claim ∈ unresolved, printedValue claim.value = true) :
    judge lib live expired unresolved ungrounded =
      .ok (verdict lib live expired unresolved ungrounded) := by
  have differs (keys : List String) : (unresolved.anyM fun claim => do
      let key ← valueKey lib claim.value
      .ok !keys.contains key) =
      .ok (unresolved.any fun claim => !keys.contains (claimKey lib claim)) :=
    anyM_eq_any fun claim mem => by rw [claimKey_eq printed' claim mem]; rfl
  rw [judge, mapM_eq_map (claimKey_eq printed), ok_bind]
  cases live with
  | nil =>
    rw [verdict]
    split_ifs <;> rfl
  | cons first rest =>
    rw [verdict]
    dsimp only
    rw [differs, ok_bind]
    split_ifs <;> rfl

/-- Each of the cases of a verdict. -/
theorem verdict_cases {P : WorldStatus × List Claim × ClaimValue → Prop}
    (conflicted : P (.conflicted, live ++ unresolved, noValue))
    (unsettled : P (.unknown, live ++ unresolved, noValue))
    (known : ∀ first ∈ live, P (.known, live, first.value))
    (waiting : P (.unknown, expired ++ unresolved ++ ungrounded, noValue))
    (stale : P (.stale, expired, noValue)) (unknown : P (.unknown, ungrounded, noValue)) :
    P (verdict lib live expired unresolved ungrounded) := by
  cases live with
  | nil =>
    rw [verdict]
    split_ifs
    · exact waiting
    · exact stale
    · exact unknown
  | cons first rest =>
    rw [verdict]
    split_ifs
    · exact conflicted
    · exact unsettled
    · exact known first List.mem_cons_self

theorem groundedIn_subset (temporal : TemporalClass) :
    groundedIn times grounded temporal (selected times grounded claims) ⊆ claims :=
  (List.filter_sublist.trans List.filter_sublist).subset

/-- The claims an entry rests on are claims that were resolved. -/
theorem verdictOn_subset : (verdictOn lib times grounded claims).2.1 ⊆ claims := by
  have others : (selected times grounded claims).filter (fun claim => !isGrounded grounded claim) ⊆
      claims := (List.filter_sublist.trans List.filter_sublist).subset
  refine @verdict_cases lib _ _ _ _ (fun verdict => verdict.2.1 ⊆ claims) ?_ ?_ ?_ ?_ ?_ ?_
  · exact List.append_subset.mpr ⟨groundedIn_subset _, groundedIn_subset _⟩
  · exact List.append_subset.mpr ⟨groundedIn_subset _, groundedIn_subset _⟩
  · exact fun _ _ => groundedIn_subset _
  · exact List.append_subset.mpr ⟨List.append_subset.mpr
      ⟨groundedIn_subset _, groundedIn_subset _⟩, others⟩
  · exact groundedIn_subset _
  · exact others

theorem verdictOn_value : (verdictOn lib times grounded claims).1 = .known ∨
    (verdictOn lib times grounded claims).2.2 = noValue :=
  @verdict_cases lib _ _ _ _ (fun verdict => verdict.1 = .known ∨ verdict.2.2 = noValue)
    (.inr rfl) (.inr rfl) (fun _ _ => .inl rfl) (.inr rfl) (.inr rfl) (.inr rfl)

theorem resolve_eq (printed : ∀ claim ∈ claims, printedValue claim.value = true)
    (key : WorldEntryKey) : resolve lib times grounded key claims =
      if key.checked then .ok (resolved lib times grounded key claims)
      else .error .invalidClaim := by
  have keys : ((verdictOn lib times grounded claims).2.1.mapM fun claim => do
      let key ← valueKey lib claim.value
      .ok (key, claim)) = .ok (keyed lib (verdictOn lib times grounded claims).2.1) :=
    mapM_eq_map fun claim mem => by
      rw [claimKey_eq printed claim (verdictOn_subset mem)]
      rfl
  have judged : judge lib (groundedIn times grounded .live (selected times grounded claims))
      (groundedIn times grounded .expired (selected times grounded claims))
      (groundedIn times grounded .unresolved (selected times grounded claims))
      ((selected times grounded claims).filter fun claim => !isGrounded grounded claim) =
        .ok (verdictOn lib times grounded claims) :=
    judge_eq (fun claim mem => printed claim (groundedIn_subset .live mem))
      (fun claim mem => printed claim (groundedIn_subset .unresolved mem))
  rw [selected] at judged
  rw [resolve, judged, ok_bind]
  dsimp only
  rw [keys, ok_bind, WorldEntry.construct]
  by_cases checked : key.checked = true
  · rw [if_pos checked, if_pos ⟨checked, verdictOn_value⟩]
    rfl
  · rw [if_neg checked, if_neg fun both => checked both.1]

end

section Heads
variable (times : Dict String (Option ObservationTime)) (grounded : List ClaimRef)

/-- The claim has a time that counts for the newest of a key. -/
def Head (claim : Claim) (key : HeadKey) (n : Nat) : Prop :=
  ∃ validAt, claim.validAt = some validAt ∧ temporalClass times claim ≠ .unresolved ∧
    headKey grounded claim validAt = key ∧ validAt.nanoseconds = n

def Newest (claims : List Claim) (key : HeadKey) : Option Nat → Prop
  | none => ∀ claim ∈ claims, ∀ n, ¬Head times grounded claim key n
  | some n => (∃ claim ∈ claims, Head times grounded claim key n) ∧
      ∀ claim ∈ claims, ∀ m, Head times grounded claim key m → m ≤ n

variable {times grounded} {claims others : List Claim} {key : HeadKey}

/-- A claim without such a time changes nothing. -/
theorem Newest.skip {found : Option Nat} (newest : Newest times grounded claims key found)
    {claim : Claim} (never : ∀ n, ¬Head times grounded claim key n) :
    Newest times grounded (claims ++ [claim]) key found := by
  cases found with
  | none =>
    intro other mem n
    obtain old | same := List.mem_append.mp mem
    · exact newest other old n
    · rw [List.mem_singleton.mp same]
      exact never n
  | some n =>
    obtain ⟨⟨first, mem, head⟩, most⟩ := newest
    refine ⟨⟨first, List.mem_append_left _ mem, head⟩, fun other mem m head => ?_⟩
    obtain old | same := List.mem_append.mp mem
    · exact most other old m head
    · rw [List.mem_singleton.mp same] at head
      exact absurd head (never m)

theorem Newest.raise {found : Option Nat} (newest : Newest times grounded claims key found)
    {claim : Claim} {n : Nat} (head : Head times grounded claim key n) :
    Newest times grounded (claims ++ [claim]) key (some (max (found.getD 0) n)) := by
  have own : ∀ m, Head times grounded claim key m → m = n := by
    rintro m ⟨validAt, timed, -, -, rfl⟩
    obtain ⟨validAt', timed', -, -, rfl⟩ := head
    rw [Option.some.inj (timed.symm.trans timed')]
  have here : claim ∈ claims ++ [claim] := List.mem_append_right _ (List.mem_singleton_self _)
  cases found with
  | none =>
    rw [Option.getD_none, Nat.zero_max]
    refine ⟨⟨claim, here, head⟩, fun other mem m head => ?_⟩
    obtain old | same := List.mem_append.mp mem
    · exact absurd head (newest other old m)
    · rw [List.mem_singleton.mp same] at head
      exact (own m head).le
  | some old =>
    obtain ⟨⟨first, mem, head'⟩, most⟩ := newest
    rw [Option.getD_some]
    refine ⟨?_, fun other mem m head => ?_⟩
    · obtain larger | smaller := Nat.le_total old n
      · rw [Nat.max_eq_right larger]
        exact ⟨claim, here, head⟩
      · rw [Nat.max_eq_left smaller]
        exact ⟨first, List.mem_append_left _ mem, head'⟩
    · obtain before | same := List.mem_append.mp mem
      · exact Nat.le_trans (most other before m head) (Nat.le_max_left _ _)
      · rw [List.mem_singleton.mp same] at head
        exact Nat.le_trans (own m head).le (Nat.le_max_right _ _)

theorem newest_heads (claims : List Claim) (key : HeadKey) :
    Newest times grounded claims key ((heads times grounded claims).get key) := by
  induction claims using List.reverseRecOn with
  | nil => exact List.forall_mem_nil _
  | append_singleton claims claim ih =>
    have never (absent : ∀ validAt, claim.validAt = some validAt →
        temporalClass times claim = .unresolved ∨ headKey grounded claim validAt ≠ key) :
        ∀ n, ¬Head times grounded claim key n := by
      rintro n ⟨validAt, timed, resolved, same, -⟩
      obtain unresolved | other := absent validAt timed
      · exact resolved unresolved
      · exact other same
    rw [heads, List.foldl_append, List.foldl_cons, List.foldl_nil]
    cases timed : claim.validAt with
    | none => exact ih.skip (never fun validAt some_ =>
      absurd (some_.symm.trans timed) (Option.some_ne_none validAt))
    | some validAt =>
      dsimp only
      split_ifs with unresolved
      · exact ih.skip (never fun _ _ => .inl unresolved)
      · rw [Dict.get_put]
        split_ifs with same
        · rw [same]
          rw [same] at ih
          exact ih.raise ⟨validAt, timed, unresolved, rfl, rfl⟩
        · refine ih.skip (never fun other some_ => .inr ?_)
          cases timed.symm.trans some_
          exact Ne.symm same

theorem Newest.unique {a b : Option Nat} (first : Newest times grounded claims key a)
    (second : Newest times grounded others key b)
    (same : ∀ n, (∃ claim ∈ claims, Head times grounded claim key n) ↔
      ∃ claim ∈ others, Head times grounded claim key n) : a = b := by
  cases a with
  | none =>
    cases b with
    | none => rfl
    | some n =>
      obtain ⟨claim, mem, head⟩ := (same n).mpr second.1
      exact absurd head (first claim mem n)
  | some n =>
    obtain ⟨claim, mem, head⟩ := (same n).mp first.1
    cases b with
    | none => exact absurd head (second claim mem n)
    | some m =>
      obtain ⟨claim', mem', head'⟩ := (same m).mpr second.1
      exact congrArg some (Nat.le_antisymm (second.2 claim mem n head)
        (first.2 claim' mem' m head'))

end Heads

section Alike

/-- The claim without its value. -/
def blank (claim : Claim) : Claim := { claim with value := noValue }

/-- What of a claim does not depend on the order of the keys in its value. -/
def mark (lib : Library) (claim : Claim) : Claim × String := (blank claim, claimKey lib claim)

/-- The same claims in any order, up to the order of the keys in their values. -/
def Alike (lib : Library) (claims others : List Claim) : Prop :=
  (claims.map (mark lib)).Perm (others.map (mark lib))

variable {lib : Library} {claims others more more' : List Claim}

theorem Alike.symm (alike : Alike lib claims others) : Alike lib others claims := List.Perm.symm alike

theorem Alike.append (alike : Alike lib claims others) (alike' : Alike lib more more') :
    Alike lib (claims ++ more) (others ++ more') := by
  rw [Alike, List.map_append, List.map_append]
  exact List.Perm.append alike alike'

theorem Alike.filter {p : Claim → Bool} {q : Claim × String → Bool}
    (through : ∀ claim, p claim = q (mark lib claim)) (alike : Alike lib claims others) :
    Alike lib (claims.filter p) (others.filter p) := by
  have images (claims : List Claim) :
      (claims.filter p).map (mark lib) = (claims.map (mark lib)).filter q := by
    rw [List.filter_map]
    exact congrArg _ (List.filter_congr fun claim _ => through claim)
  rw [Alike, images, images]
  exact List.Perm.filter q alike

theorem Alike.map {β : Type} {f : Claim → β} {g : Claim × String → β}
    (through : ∀ claim, f claim = g (mark lib claim)) (alike : Alike lib claims others) :
    (claims.map f).Perm (others.map f) := by
  have images (claims : List Claim) : claims.map f = (claims.map (mark lib)).map g := by
    rw [List.map_map]
    exact List.map_congr_left fun claim _ => through claim
  rw [images, images]
  exact List.Perm.map g alike

theorem Alike.exists {P : Claim → Prop} {Q : Claim × String → Prop}
    (through : ∀ claim, P claim ↔ Q (mark lib claim)) (alike : Alike lib claims others) :
    (∃ claim ∈ claims, P claim) ↔ ∃ claim ∈ others, P claim := by
  have images (claims : List Claim) :
      (∃ claim ∈ claims, P claim) ↔ ∃ image ∈ claims.map (mark lib), Q image := by
    simp only [List.mem_map, exists_exists_and_eq_and, through]
  rw [images, images]
  exact exists_congr fun image => and_congr_left fun _ => List.Perm.mem_iff alike

theorem Alike.forall {P : Claim → Prop} {Q : Claim × String → Prop}
    (through : ∀ claim, P claim ↔ Q (mark lib claim)) (alike : Alike lib claims others) :
    (∀ claim ∈ claims, P claim) ↔ ∀ claim ∈ others, P claim := by
  have images (claims : List Claim) :
      (∀ claim ∈ claims, P claim) ↔ ∀ image ∈ claims.map (mark lib), Q image := by
    simp only [List.forall_mem_map, through]
  rw [images, images]
  exact forall_congr' fun image => imp_congr_left (List.Perm.mem_iff alike)

theorem Alike.nil_iff (alike : Alike lib claims others) : claims = [] ↔ others = [] := by
  have length := List.Perm.length_eq alike
  rw [List.length_map, List.length_map] at length
  rw [← List.length_eq_zero_iff, length, List.length_eq_zero_iff]

theorem Alike.keys (alike : Alike lib claims others) :
    (claims.map (claimKey lib)).Perm (others.map (claimKey lib)) :=
  alike.map (g := Prod.snd) fun _ => rfl

theorem heads_alike {times : Dict String (Option ObservationTime)} {grounded : List ClaimRef}
    (alike : Alike lib claims others) (key : HeadKey) :
    (heads times grounded claims).get key = (heads times grounded others).get key :=
  (newest_heads claims key).unique (newest_heads others key) fun n =>
    alike.exists (P := fun claim => Head times grounded claim key n)
      (Q := fun image => Head times grounded image.1 key n) fun _ => Iff.rfl

theorem selected_alike (times : Dict String (Option ObservationTime)) (grounded : List ClaimRef)
    (alike : Alike lib claims others) :
    Alike lib (selected times grounded claims) (selected times grounded others) := by
  have newest : isSelected times grounded (heads times grounded others) =
      isSelected times grounded (heads times grounded claims) := by
    funext claim
    simp only [isSelected, heads_alike alike]
  rw [selected, selected, newest]
  exact alike.filter (q := fun image =>
    isSelected times grounded (heads times grounded claims) image.1) fun _ => rfl

theorem groundedIn_alike (times : Dict String (Option ObservationTime)) (grounded : List ClaimRef)
    (temporal : TemporalClass) (alike : Alike lib claims others) :
    Alike lib (groundedIn times grounded temporal claims)
      (groundedIn times grounded temporal others) :=
  alike.filter (q := fun image =>
    isGrounded grounded image.1 && decide (temporalClass times image.1 = temporal)) fun _ => rfl

theorem eq_of_dedup {β : Type} [DecidableEq β] {xs : List β} (few : ¬1 < xs.dedup.length) {a b : β}
    (mem : a ∈ xs) (mem' : b ∈ xs) : a = b := by
  rw [← List.mem_dedup] at mem mem'
  generalize xs.dedup = distinct at few mem mem'
  match distinct with
  | [] => cases mem
  | [x] => rw [List.mem_singleton.mp mem, List.mem_singleton.mp mem']
  | _ :: _ :: _ => exact absurd (by simp) few

/-- What a verdict says, up to the order of the keys. -/
structure SameVerdict (lib : Library) (v v' : WorldStatus × List Claim × ClaimValue) : Prop where
  status : v.1 = v'.1
  basis : Alike lib v.2.1 v'.2.1
  value : keyOf lib v.2.2 = keyOf lib v'.2.2

theorem verdict_alike {live live' expired expired' unresolved unresolved' ungrounded ungrounded' :
      List Claim} (lives : Alike lib live live') (expires : Alike lib expired expired')
    (open_ : Alike lib unresolved unresolved') (other : Alike lib ungrounded ungrounded') :
    SameVerdict lib (verdict lib live expired unresolved ungrounded)
      (verdict lib live' expired' unresolved' ungrounded') := by
  cases live with
  | nil =>
    rw [lives.nil_iff.mp rfl, verdict, verdict]
    simp only [ne_eq, open_.nil_iff, expires.nil_iff]
    split_ifs
    · exact ⟨rfl, other, rfl⟩
    · exact ⟨rfl, expires, rfl⟩
    · exact ⟨rfl, (expires.append open_).append other, rfl⟩
  | cons first rest =>
    cases live' with
    | nil => cases lives.nil_iff.mpr rfl
    | cons first' rest' =>
      have keys := lives.keys
      have differs : (unresolved.any fun claim =>
            !((first :: rest).map (claimKey lib)).contains (claimKey lib claim)) =
          (unresolved'.any fun claim =>
            !((first' :: rest').map (claimKey lib)).contains (claimKey lib claim)) := by
        rw [Bool.eq_iff_iff, List.any_eq_true, List.any_eq_true]
        simp only [List.contains_eq_mem, keys.mem_iff]
        exact open_.exists (Q := fun image =>
          (!decide (image.2 ∈ (first' :: rest').map (claimKey lib))) = true) fun _ => Iff.rfl
      rw [verdict, verdict, differs, keys.dedup.length_eq]
      split_ifs with several
      · exact ⟨rfl, lives.append open_, rfl⟩
      · exact ⟨rfl, lives.append open_, rfl⟩
      · refine ⟨rfl, lives, ?_⟩
        exact eq_of_dedup several (keys.mem_iff.mp (List.mem_map_of_mem List.mem_cons_self))
          (List.mem_map_of_mem List.mem_cons_self)

/-- Lists of the same elements are sorted the same. -/
theorem insertionSort_perm {β : Type} {r : β → β → Prop} [DecidableRel r] {xs ys : List β}
    (total : ∀ a b, r a b ∨ r b a) (trans : ∀ a b c, r a b → r b c → r a c)
    (antisymm : ∀ a ∈ xs, ∀ b ∈ xs, r a b → r b a → a = b) (perm : xs.Perm ys) :
    xs.insertionSort r = ys.insertionSort r := by
  have : Std.Total r := ⟨total⟩
  have : IsTrans β r := ⟨trans⟩
  refine List.Perm.eq_of_pairwise (fun a b mem mem' => antisymm a ?_ b ?_)
    (List.pairwise_insertionSort r xs) (List.pairwise_insertionSort r ys) ?_
  · exact (List.mem_insertionSort r).mp mem
  · exact perm.mem_iff.mpr ((List.mem_insertionSort r).mp mem')
  · exact ((List.perm_insertionSort r xs).trans perm).trans (List.perm_insertionSort r ys).symm

theorem evidenceOrder_injective {a b : EvidenceRef} (named : a.source ≠ some "")
    (named' : b.source ≠ some "") (same : evidenceOrder a = evidenceOrder b) : a = b := by
  obtain ⟨kind, same⟩ := List.cons.inj same
  obtain ⟨source, same⟩ := List.cons.inj same
  obtain ⟨id, -⟩ := List.cons.inj same
  refine EvidenceRef.ext (EvidenceKind.value_injective _ _ kind) ?_ id
  cases first : a.source with
  | none =>
    cases second : b.source with
    | none => rfl
    | some s =>
      rw [first, second, Option.getD_none, Option.getD_some] at source
      exact absurd (source ▸ second) named'
  | some s =>
    cases second : b.source with
    | none =>
      rw [first, second, Option.getD_none, Option.getD_some] at source
      exact absurd (source ▸ first) named
    | some t =>
      rw [first, second, Option.getD_some, Option.getD_some] at source
      rw [source]

/-- No evidence of the claims has an empty source. -/
def Named (claims : List Claim) : Prop :=
  ∀ claim ∈ claims, ∀ evidence ∈ claim.evidenceRefs, evidence.source ≠ some ""

theorem agreed_perm {xs ys : List (Option ObservationTime)} (perm : xs.Perm ys) :
    agreed xs = agreed ys := by
  match xs, ys with
  | [], _ => rw [perm.nil_eq]
  | [x], _ => rw [List.singleton_perm.mp perm]
  | _ :: _ :: _, [] => cases perm.length_eq
  | _ :: _ :: _, [_] => cases perm.length_eq
  | _ :: _ :: _, _ :: _ :: _ => rfl

theorem provenance_alike (named : Named claims) (alike : Alike lib claims others) :
    provenance claims = provenance others := by
  have refs : (claims.map Claim.ref).Perm (others.map Claim.ref) :=
    alike.map (g := fun image => image.1.ref) fun _ => rfl
  have evidence : (claims.flatMap Claim.evidenceRefs).Perm (others.flatMap Claim.evidenceRefs) := by
    rw [List.flatMap_def, List.flatMap_def]
    exact (alike.map (g := fun image => image.1.evidenceRefs) fun _ => rfl).flatten
  have times : (claims.map Claim.validAt).dedup.Perm (others.map Claim.validAt).dedup :=
    (alike.map (g := fun image => image.1.validAt) fun _ => rfl).dedup
  have validAt : (provenance claims).validAt = (provenance others).validAt := agreed_perm times
  have sortedRefs : (provenance claims).refs = (provenance others).refs :=
    insertionSort_perm (fun _ _ => le_total _ _) (fun _ _ _ => le_trans)
      (fun _ _ _ _ le ge => ClaimRef.ext (le_antisymm le ge)) refs.dedup
  have sortedEvidence : (provenance claims).evidence = (provenance others).evidence := by
    refine insertionSort_perm (fun _ _ => le_total _ _) (fun _ _ _ => le_trans) ?_ evidence.dedup
    intro a mem b mem' le ge
    obtain ⟨claim, listed, inside⟩ := List.mem_flatMap.mp (List.mem_dedup.mp mem)
    obtain ⟨claim', listed', inside'⟩ := List.mem_flatMap.mp (List.mem_dedup.mp mem')
    exact evidenceOrder_injective (named claim listed a inside) (named claim' listed' b inside')
      (le_antisymm le ge)
  exact Provenance.ext sortedRefs sortedEvidence validAt

/-- The same candidate, the value as JSON. -/
structure SameCandidate (a b : WorldCandidate) : Prop where
  value : SameValue a.value b.value
  supportingClaims : a.supportingClaims = b.supportingClaims
  evidenceRefs : a.evidenceRefs = b.evidenceRefs
  validAt : a.validAt = b.validAt

/-- The same entry, its values as JSON. -/
structure SameEntry (a b : WorldEntry) : Prop where
  key : a.key = b.key
  status : a.status = b.status
  value : SameValue a.value b.value
  candidates : List.Forall₂ SameCandidate a.candidates b.candidates
  supportingClaims : a.supportingClaims = b.supportingClaims
  evidenceRefs : a.evidenceRefs = b.evidenceRefs
  validAt : a.validAt = b.validAt

theorem supports_eq (lib : Library) (claims : List Claim) (key : String) :
    ((keyed lib claims).filter fun entry => entry.1 = key).map Prod.snd =
      claims.filter fun claim => claimKey lib claim = key := by
  rw [keyed, List.filter_map, List.map_map]
  exact List.map_id _

/-- A candidate has the value of its claims. -/
theorem keyOf_candidate {key : String} (support : ∃ claim ∈ claims, claimKey lib claim = key) :
    keyOf lib (candidate (claims.filter fun claim => claimKey lib claim = key)).value = key := by
  obtain ⟨claim, mem, same⟩ := support
  have listed : claim ∈ claims.filter fun claim => claimKey lib claim = key :=
    List.mem_filter.mpr ⟨mem, decide_eq_true same⟩
  have each : ∀ other ∈ claims.filter fun claim => claimKey lib claim = key,
      claimKey lib other = key := fun other mem => of_decide_eq_true (List.mem_filter.mp mem).2
  generalize claims.filter (fun claim => claimKey lib claim = key) = supports at listed each
  cases supports with
  | nil => cases listed
  | cons first rest => exact each first List.mem_cons_self

theorem candidates_alike (correct : lib.Correct) (named : Named claims)
    (alike : Alike lib claims others) :
    List.Forall₂ SameCandidate (candidatesOf (keyed lib claims)) (candidatesOf (keyed lib others)) := by
  have firsts (claims : List Claim) :
      (keyed lib claims).map Prod.fst = claims.map (claimKey lib) := by
    rw [keyed, List.map_map]
    rfl
  have order : (claims.map (claimKey lib)).dedup.insertionSort (· ≤ ·) =
      (others.map (claimKey lib)).dedup.insertionSort (· ≤ ·) :=
    insertionSort_perm (fun _ _ => le_total _ _) (fun _ _ _ => le_trans)
      (fun _ _ _ _ => le_antisymm) alike.keys.dedup
  rw [candidatesOf, candidatesOf, firsts, firsts, ← order, List.forall₂_map_left_iff,
    List.forall₂_map_right_iff, List.forall₂_same]
  intro key mem
  rw [supports_eq, supports_eq]
  have supports : Alike lib (claims.filter fun claim => claimKey lib claim = key)
      (others.filter fun claim => claimKey lib claim = key) :=
    alike.filter (q := fun image => image.2 = key) fun _ => rfl
  have same := provenance_alike (fun claim mem => named claim (List.mem_filter.mp mem).1) supports
  have value : SameValue (candidate (claims.filter fun claim => claimKey lib claim = key)).value
      (candidate (others.filter fun claim => claimKey lib claim = key)).value := by
    have support : ∃ claim ∈ claims, claimKey lib claim = key :=
      List.mem_map.mp (List.mem_dedup.mp ((List.mem_insertionSort _).mp mem))
    have support' := (alike.exists (Q := fun image => image.2 = key) fun _ => Iff.rfl).mp support
    rw [← keyOf_eq_iff correct, keyOf_candidate support, keyOf_candidate support']
  exact ⟨value, congrArg Provenance.refs same, congrArg Provenance.evidence same,
    congrArg Provenance.validAt same⟩

/-- Claims that are alike resolve to the same entry. -/
theorem resolved_alike (correct : lib.Correct) (times : Dict String (Option ObservationTime))
    (grounded : List ClaimRef) (key : WorldEntryKey) (named : Named claims)
    (alike : Alike lib claims others) :
    SameEntry (resolved lib times grounded key claims)
      (resolved lib times grounded key others) := by
  have chosen := selected_alike times grounded alike
  have verdicts : SameVerdict lib (verdictOn lib times grounded claims)
      (verdictOn lib times grounded others) :=
    verdict_alike (groundedIn_alike times grounded .live chosen)
      (groundedIn_alike times grounded .expired chosen)
      (groundedIn_alike times grounded .unresolved chosen)
      (chosen.filter (q := fun image => !isGrounded grounded image.1) fun _ => rfl)
  have basis : Named (verdictOn lib times grounded claims).2.1 :=
    fun claim mem => named claim (verdictOn_subset mem)
  have same := provenance_alike basis verdicts.basis
  exact {
    key := rfl
    status := verdicts.status
    value := (keyOf_eq_iff correct).mp verdicts.value
    candidates := candidates_alike correct basis verdicts.basis
    supportingClaims := congrArg Provenance.refs same
    evidenceRefs := congrArg Provenance.evidence same
    validAt := congrArg Provenance.validAt same }

end Alike

section Snapshots
variable {lib : Library} {clock : Clock} {w w' : World}

/-- The clocks of the claims can be read. -/
def Readable (clock : Clock) (claims : List Claim) : Prop :=
  ∀ claim ∈ claims, ∀ validAt ∈ claim.validAt, ∃ time, now clock validAt.clockId = .ok time

theorem now_cases (clock : Clock) (id : String) :
    (∃ time, now clock id = .ok time) ∨ now clock id = .error .clockUnavailable := by
  unfold now
  split
  · exact .inl ⟨none, rfl⟩
  · split_ifs
    · exact .inl ⟨_, rfl⟩
    · exact .inr rfl
  · exact .inr rfl

/-- Reading the clocks succeeds, or fails for one of them. -/
theorem readClocks_cases (claims : List Claim) (times : Dict String (Option ObservationTime))
    (before : ∀ id, (times.get id).isSome = true → ∃ time, now clock id = .ok time) :
    ((∃ last, readClocks clock times claims = .ok last) ∧ Readable clock claims) ∨
      (readClocks clock times claims = .error .clockUnavailable ∧ ¬Readable clock claims) := by
  induction claims generalizing times with
  | nil => exact .inl ⟨⟨times, rfl⟩, List.forall_mem_nil _⟩
  | cons claim claims ih =>
    rw [readClocks]
    have readable (here : ∀ validAt ∈ claim.validAt, ∃ time, now clock validAt.clockId = .ok time) :
        Readable clock (claim :: claims) ↔ Readable clock claims := by
      rw [Readable, List.forall_mem_cons, and_iff_right here]
      rfl
    cases timed : claim.validAt with
    | none =>
      rw [readable (by rw [timed]; exact fun _ absurd => (Option.not_mem_none _ absurd).elim)]
      exact ih times before
    | some validAt =>
      dsimp only
      split_ifs with known
      · rw [readable (by rw [timed]; rintro _ ⟨⟩; exact before _ known)]
        exact ih times before
      · obtain ⟨time, shows⟩ | fails := now_cases clock validAt.clockId
        · rw [readable (by rw [timed]; rintro _ ⟨⟩; exact ⟨time, shows⟩), shows, ok_bind]
          refine ih _ fun id found => ?_
          rw [Dict.get_put] at found
          split_ifs at found with same
          · exact same ▸ ⟨time, shows⟩
          · exact before id found
        · rw [fails]
          refine .inr ⟨rfl, fun readable => ?_⟩
          obtain ⟨time, shows⟩ := readable claim List.mem_cons_self validAt timed
          cases fails.symm.trans shows

/-- Only clocks of the claims are read. -/
theorem readClocks_read {times last : Dict String (Option ObservationTime)} {claims : List Claim}
    (read : readClocks clock times claims = .ok last) {id : String}
    (found : (last.get id).isSome = true) : (times.get id).isSome = true ∨
      ∃ claim ∈ claims, ∃ validAt ∈ claim.validAt, validAt.clockId = id := by
  induction claims generalizing times with
  | nil =>
    cases read
    exact .inl found
  | cons claim claims ih =>
    rw [readClocks] at read
    have later (h : ∃ other ∈ claims, ∃ validAt ∈ other.validAt, validAt.clockId = id) :
        ∃ other ∈ claim :: claims, ∃ validAt ∈ other.validAt, validAt.clockId = id := by
      obtain ⟨other, mem, timed⟩ := h
      exact ⟨other, List.mem_cons_of_mem _ mem, timed⟩
    cases timed : claim.validAt with
    | none =>
      rw [timed] at read
      exact (ih read).imp_right later
    | some validAt =>
      rw [timed] at read
      dsimp only at read
      split_ifs at read
      · exact (ih read).imp_right later
      · obtain ⟨time, -, read⟩ := bind_eq_ok read
        obtain put | elsewhere := ih read
        · rw [Dict.get_put] at put
          split_ifs at put with same
          · exact .inr ⟨claim, List.mem_cons_self, validAt, timed, same.symm⟩
          · exact .inl put
        · exact .inr (later elsewhere)

/-- What is known of the clocks after they were read. -/
theorem readClocks_get {last : Dict String (Option ObservationTime)} {claims : List Claim}
    (read : readClocks clock .empty claims = .ok last) (id : String)
    (time : Option ObservationTime) : last.get id = some time ↔ now clock id = .ok time ∧
      ∃ claim ∈ claims, ∃ validAt ∈ claim.validAt, validAt.clockId = id := by
  obtain ⟨shown, -, each⟩ := readClocks_spec read nofun
  constructor
  · intro found
    refine ⟨shown id time found, (readClocks_read read ?_).resolve_left Bool.false_ne_true⟩
    rw [found]
    rfl
  · rintro ⟨shows, claim, mem, validAt, timed, rfl⟩
    obtain ⟨other, found⟩ := Option.isSome_iff_exists.mp (each claim mem validAt timed)
    rw [found, Except.ok.inj ((shown _ _ found).symm.trans shows)]

theorem resolved_congr {times times' : Dict String (Option ObservationTime)}
    {grounded grounded' : List ClaimRef} (temporal : temporalClass times = temporalClass times')
    (ground : isGrounded grounded = isGrounded grounded') :
    resolved lib times grounded = resolved lib times' grounded' := by
  have keys : headKey grounded = headKey grounded' := by
    funext claim validAt
    rw [headKey, headKey, ground]
  have newest : heads times grounded = heads times' grounded' := by
    funext claims
    simp only [heads, keys, temporal]
  have selects : isSelected times grounded = isSelected times' grounded' := by
    funext newest claim
    simp only [isSelected, keys, temporal]
  funext key claims
  simp only [resolved, verdictOn, selected, newest, selects, groundedIn, temporal, ground]

/-- The claims an entry is resolved from. -/
def group (w : World) (key : WorldEntryKey) : List Claim :=
  ((values w.claims).filter fun claim => Claim.key claim = key).filter fun claim =>
    claim.ref ∉ superseded (values w.claims)

def entryKeys (w : World) : List WorldEntryKey := ((values w.claims).map Claim.key).dedup

/-- Every stored claim was built by its constructor, and its values can be written. -/
structure Sound (w : World) : Prop where
  checked : ∀ claim ∈ values w.claims, Claim.checked claim = true
  printed : ∀ claim ∈ values w.claims, printedValue claim.value = true

theorem group_subset (w : World) (key : WorldEntryKey) : group w key ⊆ values w.claims :=
  (List.filter_sublist.trans List.filter_sublist).subset

theorem checked_key {claim : Claim} (checked : Claim.checked claim = true) :
    (Claim.key claim).checked = true := by
  simp only [Claim.checked, Bool.and_eq_true] at checked
  exact checked.1.1.1.1.1.1.1.2

theorem named_of_sound (sound : Sound w) (key : WorldEntryKey) : Named (group w key) := by
  intro claim mem evidence listed empty
  have checked := sound.checked claim (group_subset w key mem)
  simp only [Claim.checked, Bool.and_eq_true, List.all_eq_true] at checked
  have evidenceChecked := checked.1.1.2 evidence listed
  rw [EvidenceRef.checked, empty, Bool.and_eq_true] at evidenceChecked
  have blank : textChecked "" = false := by decide
  have refused : textChecked "" = true := by
    cases kind : evidence.kind with
    | observation =>
      rw [kind] at evidenceChecked
      exact evidenceChecked.2
    | claim =>
      rw [kind] at evidenceChecked
      exact evidenceChecked.2
  cases refused.symm.trans blank

/-- The snapshot of a store at given readings. -/
theorem snapshot_eq (inv : Consistent lib w) (sound : Sound w)
    {times : Dict String (Option ObservationTime)} {grounded : List ClaimRef}
    (read : readClocks clock .empty (values w.claims) = .ok times)
    (found : groundedClaims (values w.claims) (superseded (values w.claims)) = some grounded) :
    snapshot lib clock w = .ok {
      worldId := w.worldId, revision := w.revision
      entries := (entryKeys w).map fun key =>
        resolved lib times grounded key (group w key) } := by
  have each : ∀ key ∈ entryKeys w, resolve lib times grounded key (group w key) =
      .ok (resolved lib times grounded key (group w key)) := by
    intro key mem
    obtain ⟨claim, listed, rfl⟩ := List.mem_map.mp (List.mem_dedup.mp mem)
    rw [resolve_eq fun other inside => sound.printed other (group_subset w _ inside),
      if_pos (checked_key (sound.checked claim listed))]
  have keys : ((entryKeys w).map fun key =>
      resolved lib times grounded key (group w key)).map WorldEntry.key = entryKeys w := by
    rw [List.map_map]
    exact List.map_id _
  rw [snapshot, read, ok_bind]
  dsimp only
  rw [found, Option.elim_some, ok_bind]
  change ((entryKeys w).mapM fun key => resolve lib times grounded key (group w key)) >>= _ = _
  rw [mapM_eq_map each, ok_bind, WorldSnapshot.construct, if_pos]
  refine ⟨inv.named, ?_⟩
  rw [keys]
  exact List.nodup_dedup _

theorem snapshot_fails (read : readClocks clock .empty (values w.claims) =
    .error .clockUnavailable) : snapshot lib clock w = .error .clockUnavailable := by
  rw [snapshot, read]
  rfl

/-- Every claim of one store is a claim of the other. -/
def Covers (w w' : World) : Prop :=
  ∀ claim ∈ values w.claims, ∃ other ∈ values w'.claims, SameClaim claim other

theorem mark_eq (correct : lib.Correct) {a b : Claim} (h : SameClaim a b) :
    mark lib a = mark lib b := by
  have blanks : blank a = blank b := by
    simp only [blank, h.ref, h.subject, h.predicate, h.kind, h.source, h.scope, h.evidenceRefs,
      h.assertedAt, h.validAt, h.validForNs, h.supersedes]
  exact Prod.ext blanks ((keyOf_eq_iff correct).mpr h.value)

theorem alike_of_covers (correct : lib.Correct) (inv : Consistent lib w)
    (inv' : Consistent lib w') (covers : Covers w w') (covers' : Covers w' w) :
    Alike lib (values w.claims) (values w'.claims) := by
  have distinct {w : World} (inv : Consistent lib w) :
      ((values w.claims).map (mark lib)).Nodup := by
    refine List.Nodup.of_map (fun image => image.1.ref) ?_
    rw [List.map_map]
    change ((values w.claims).map Claim.ref).Nodup
    rw [refs_claims inv]
    exact w.claims.distinct
  have within {w w' : World} (covers : Covers w w') :
      ∀ image ∈ (values w.claims).map (mark lib), image ∈ (values w'.claims).map (mark lib) := by
    intro image mem
    obtain ⟨claim, listed, rfl⟩ := List.mem_map.mp mem
    obtain ⟨other, listed', same⟩ := covers claim listed
    exact mark_eq correct same ▸ List.mem_map_of_mem listed'
  exact (List.perm_ext_iff_of_nodup (distinct inv) (distinct inv')).mpr fun image =>
    ⟨within covers image, within covers' image⟩

section
variable {claims others : List Claim} (alike : Alike lib claims others)
include alike

theorem readable_alike : Readable clock claims ↔ Readable clock others :=
  alike.forall (Q := fun image => ∀ validAt ∈ image.1.validAt,
    ∃ time, now clock validAt.clockId = .ok time) fun _ => Iff.rfl

theorem mem_superseded_alike (ref : ClaimRef) : ref ∈ superseded claims ↔ ref ∈ superseded others := by
  rw [superseded, superseded, List.mem_flatMap, List.mem_flatMap]
  exact alike.exists (Q := fun image => ref ∈ image.1.supersedes) fun _ => Iff.rfl

theorem temporalClass_alike {times times' : Dict String (Option ObservationTime)}
    (read : readClocks clock .empty claims = .ok times)
    (read' : readClocks clock .empty others = .ok times') :
    temporalClass times = temporalClass times' := by
  have known (id : String) : times.get id = times'.get id := by
    refine Option.ext fun time => ?_
    rw [readClocks_get read, readClocks_get read']
    refine and_congr_right fun _ => ?_
    exact alike.exists (Q := fun image => ∃ validAt ∈ image.1.validAt, validAt.clockId = id)
      fun _ => Iff.rfl
  funext claim
  simp only [temporalClass, known]

theorem rule_alike : rule claims (superseded claims) = rule others (superseded others) := by
  refine OrderHom.ext _ _ (funext fun supported => Set.ext fun ref => ?_)
  have replaced (claim : Claim) : claim.ref ∉ superseded claims ↔ claim.ref ∉ superseded others :=
    not_congr (mem_superseded_alike alike claim.ref)
  change (∃ claim ∈ claims, claim.ref = ref ∧ claim.ref ∉ superseded claims ∧ _) ↔
    (∃ claim ∈ others, claim.ref = ref ∧ claim.ref ∉ superseded others ∧ _)
  simp only [replaced]
  exact alike.exists (Q := fun image => image.1.ref = ref ∧ image.1.ref ∉ superseded others ∧
    image.1.kind.isGrounded = true ∧ ∃ evidence ∈ image.1.evidenceRefs,
      evidence.kind = .observation ∨ ClaimRef.mk evidence.id ∈ supported) fun _ => Iff.rfl

end

theorem group_alike (alike : Alike lib (values w.claims) (values w'.claims)) (key : WorldEntryKey) :
    Alike lib (group w key) (group w' key) := by
  have unreplaced : (fun claim : Claim => decide (claim.ref ∉ superseded (values w'.claims))) =
      fun claim => decide (claim.ref ∉ superseded (values w.claims)) := by
    funext claim
    exact decide_eq_decide.mpr (not_congr (mem_superseded_alike alike claim.ref).symm)
  rw [group, group, unreplaced]
  refine Alike.filter (q := fun image => decide (image.1.ref ∉ superseded (values w.claims)))
    (fun _ => rfl) ?_
  exact alike.filter (q := fun image => decide (Claim.key image.1 = key)) fun _ => rfl

/-- The same entries, in any order. -/
def SameEntries (entries others : List WorldEntry) : Prop :=
  (∀ entry ∈ entries, ∃ other ∈ others, SameEntry entry other) ∧
    ∀ other ∈ others, ∃ entry ∈ entries, SameEntry entry other

/-- Stores with the same claims are known alike. -/
theorem snapshots_alike (correct : lib.Correct) (clock : Clock) (inv : Consistent lib w)
    (inv' : Consistent lib w') (sound : Sound w) (sound' : Sound w')
    (alike : Alike lib (values w.claims) (values w'.claims)) :
    (snapshot lib clock w = .error .clockUnavailable ∧
      snapshot lib clock w' = .error .clockUnavailable) ∨
    ∃ s s', snapshot lib clock w = .ok s ∧ snapshot lib clock w' = .ok s' ∧
      SameEntries s.entries s'.entries := by
  obtain ⟨⟨times, read⟩, readable⟩ | ⟨failed, unreadable⟩ :=
    @readClocks_cases clock (values w.claims) .empty nofun
  · obtain ⟨⟨times', read'⟩, -⟩ | ⟨-, unreadable⟩ :=
      @readClocks_cases clock (values w'.claims) .empty nofun
    · obtain ⟨grounded, found, least⟩ := groundedClaims_consistent inv (List.Perm.refl _)
        (superseded (values w.claims))
      obtain ⟨grounded', found', least'⟩ := groundedClaims_consistent inv' (List.Perm.refl _)
        (superseded (values w'.claims))
      have ground : isGrounded grounded = isGrounded grounded' := by
        rw [rule_alike alike, ← least'] at least
        funext claim
        exact decide_eq_decide.mpr (Set.ext_iff.mp least claim.ref)
      have same := @resolved_congr lib _ _ _ _ (temporalClass_alike alike read read') ground
      have keys (key : WorldEntryKey) : key ∈ entryKeys w ↔ key ∈ entryKeys w' := by
        rw [entryKeys, entryKeys, List.mem_dedup, List.mem_dedup]
        exact (alike.map (g := fun image => Claim.key image.1) fun _ => rfl).mem_iff
      have entry (key : WorldEntryKey) :
          SameEntry (resolved lib times grounded key (group w key))
            (resolved lib times' grounded' key (group w' key)) := by
        rw [← same]
        exact resolved_alike correct times grounded key (named_of_sound sound key)
          (group_alike alike key)
      refine .inr ⟨_, _, snapshot_eq inv sound read found, snapshot_eq inv' sound' read' found',
        List.forall_mem_map.mpr fun key mem => ?_, List.forall_mem_map.mpr fun key mem => ?_⟩
      · exact ⟨_, List.mem_map_of_mem ((keys key).mp mem), entry key⟩
      · exact ⟨_, List.mem_map_of_mem ((keys key).mpr mem), entry key⟩
    · exact absurd ((readable_alike alike).mp readable) unreadable
  · obtain ⟨-, readable⟩ | ⟨failed', -⟩ :=
      @readClocks_cases clock (values w'.claims) .empty nofun
    · exact absurd ((readable_alike alike).mpr readable) unreadable
    · exact .inl ⟨snapshot_fails failed, snapshot_fails failed'⟩

end Snapshots

section Runs
variable {lib : Library} {start w w' : World} {calls calls' : List Call}

/-- A call that does not raise. -/
def accepting (lib : Library) (w : World) (call : Call) : Option World :=
  match (perform lib call w).1 with
  | .ok _ => some (perform lib call w).2
  | .error _ => none

def claimsOf (calls : List Call) : List Claim := calls.flatMap Call.batch

theorem accepting_cases (inv : Consistent lib w) {call : Call} {next : World}
    (h : accepting lib w call = some next) : Accepted lib w call ∧ next = after lib w call := by
  rw [accepting] at h
  obtain ⟨error, -, performed⟩ | ⟨accepted, performed⟩ := perform_cases call inv
  · rw [performed] at h
    cases h
  · rw [performed] at h
    cases h
    exact ⟨accepted, rfl⟩

theorem step_of_accepting {call : Call} {next : World} (h : accepting lib w call = some next) :
    step lib w call = some next := by
  rw [accepting] at h
  split at h
  · exact h
  · cases h

theorem run_step_of_accepting (led : run (accepting lib) start calls = some w) :
    run (step lib) start calls = some w := by
  induction calls generalizing start with
  | nil => exact led
  | cons call calls ih =>
    obtain ⟨next, first, later⟩ := run_cons_eq_some.mp led
    exact run_cons_eq_some.mpr ⟨next, step_of_accepting first, ih later⟩

theorem printedValue_of_data {claim : Claim} (prints : printable claim.data = true) :
    printedValue claim.value = true := by
  rw [Claim.data, printable_obj, List.all_eq_true] at prints
  have value := prints ("value", claim.value.data)
    (List.mem_cons_of_mem _ (List.mem_cons_of_mem _ (List.mem_cons_of_mem _ List.mem_cons_self)))
  cases stored : claim.value with
  | entity reference => rfl
  | json json =>
    rw [stored] at value
    exact value

/-- What is stored was submitted and could be written. -/
theorem submitted_after {call : Call} (accepted : Accepted lib w call) :
    ∀ claim ∈ values (after lib w call).claims, claim ∈ values w.claims ∨
      claim ∈ call.batch ∧ printable claim.data = true := by
  intro claim mem
  rw [after] at mem
  split_ifs at mem
  · obtain ⟨ref, found⟩ := mem_values.mp mem
    change (claimsAfter w (prepared lib call)).get ref = some claim at found
    rw [get_claimsAfter] at found
    cases incoming : (prepared lib call).incoming.get ref with
    | none =>
      rw [incoming] at found
      exact .inl (mem_values.mpr ⟨ref, found⟩)
    | some s =>
      rw [incoming] at found
      cases found
      obtain ⟨listed, -⟩ := incoming_spec incoming
      exact .inr ⟨listed, (accepted.preparable.claims _ listed).2⟩
  · exact .inl mem

theorem submitted_run (correct : lib.Correct) (inv : Consistent lib start)
    (empty : values start.claims = []) (led : run (accepting lib) start calls = some w) :
    ∀ claim ∈ values w.claims, claim ∈ claimsOf calls ∧ printable claim.data = true := by
  refine (run_invariant (I := fun w => Consistent lib w ∧ ∀ claim ∈ values w.claims,
    claim ∈ claimsOf calls ∧ printable claim.data = true) ?_ ⟨inv, by rw [empty]; exact List.forall_mem_nil _⟩
    (along_of_forall fun _ mem => mem) led).2
  rintro w call next ⟨inv, before⟩ mem stepped
  refine ⟨consistent_step correct inv (step_of_accepting stepped), ?_⟩
  obtain ⟨accepted, rfl⟩ := accepting_cases inv stepped
  intro claim listed
  obtain old | ⟨batched, prints⟩ := submitted_after accepted claim listed
  · exact before claim old
  · exact ⟨List.mem_flatMap.mpr ⟨call, mem, batched⟩, prints⟩

/-- What was submitted is stored. -/
theorem stored_calls (correct : lib.Correct) (inv : Consistent lib start)
    (led : run (accepting lib) start calls = some w) : ∀ call ∈ calls, Stored w call := by
  intro call mem
  obtain ⟨before, later, rfl⟩ := List.append_of_mem mem
  obtain ⟨middle, first, led⟩ := run_append_eq_some.mp led
  obtain ⟨next, stepped, led⟩ := run_cons_eq_some.mp led
  have inv' := consistent_run correct inv (run_step_of_accepting first)
  have stepped' := consistent_step correct inv' (step_of_accepting stepped)
  obtain ⟨accepted, rfl⟩ := accepting_cases inv' stepped
  exact stored_run correct stepped' (stored_of_accepted correct inv' accepted)
    (run_step_of_accepting led)

theorem covers_run (correct : lib.Correct) (inv : Consistent lib start)
    (empty : values start.claims = []) (same : ∀ claim ∈ claimsOf calls, claim ∈ claimsOf calls')
    (led : run (accepting lib) start calls = some w)
    (led' : run (accepting lib) start calls' = some w') : Covers w w' := by
  intro claim mem
  obtain ⟨submitted, -⟩ := submitted_run correct inv empty led claim mem
  obtain ⟨call, listed, batched⟩ := List.mem_flatMap.mp (same claim submitted)
  obtain ⟨other, found, data⟩ := (stored_calls correct inv led' call listed).claims claim batched
  exact ⟨other, mem_values.mpr ⟨_, found⟩, (sameClaim_iff _ _).mpr data.symm⟩

theorem sound_run (correct : lib.Correct) (inv : Consistent lib start)
    (empty : values start.claims = [])
    (checked : ∀ claim ∈ claimsOf calls, Claim.checked claim = true)
    (led : run (accepting lib) start calls = some w) : Sound w where
  checked claim mem := checked claim (submitted_run correct inv empty led claim mem).1
  printed claim mem := printedValue_of_data (submitted_run correct inv empty led claim mem).2

/-- Any two sequences of accepted calls that submit the same claims, in any order and in any batches,
lead to stores that are known alike: at equal readings both snapshots fail, or they have the same
entries. -/
theorem order_irrelevant (correct : lib.Correct) {worldId : String} {limits : WorldLimits}
    {sources : List String} {scopes : List (Option String)}
    (made : create worldId limits sources scopes = .ok start)
    (checked : ∀ claim ∈ claimsOf calls, Claim.checked claim = true)
    (same : ∀ claim, claim ∈ claimsOf calls ↔ claim ∈ claimsOf calls')
    (led : run (accepting lib) start calls = some w)
    (led' : run (accepting lib) start calls' = some w') (clock : Clock) :
    (snapshot lib clock w = .error .clockUnavailable ∧
      snapshot lib clock w' = .error .clockUnavailable) ∨
    ∃ s s', snapshot lib clock w = .ok s ∧ snapshot lib clock w' = .ok s' ∧
      SameEntries s.entries s'.entries := by
  have inv : Consistent lib start := consistent_create made
  have empty : values start.claims = [] := by
    rw [create] at made
    split_ifs at made
    cases made
    rfl
  have inv' := consistent_run correct inv (run_step_of_accepting led)
  have inv'' := consistent_run correct inv (run_step_of_accepting led')
  refine snapshots_alike correct clock inv' inv'' (sound_run correct inv empty checked led)
    (sound_run correct inv empty (fun claim mem => checked claim ((same claim).mpr mem)) led') ?_
  exact alike_of_covers correct inv' inv''
    (covers_run correct inv empty (fun claim => (same claim).mp) led led')
    (covers_run correct inv empty (fun claim => (same claim).mpr) led' led)

end Runs

section Example

/-- The frame and both claims, in two calls. -/
def inTwo : List Call := [⟨some (frame "a" (.resource image)), [red]⟩, ⟨none, [ripe]⟩]

/-- The same in one call, the claim that is inferred first. -/
def inOne : List Call := [⟨some (frame "a" (.resource image)), [ripe, red]⟩]

theorem order_irrelevant_ripe : ∃ w w' s s', run (accepting ripeLibrary) bare inTwo = some w ∧
    run (accepting ripeLibrary) bare inOne = some w' ∧ snapshot ripeLibrary none w = .ok s ∧
    snapshot ripeLibrary none w' = .ok s' ∧ SameEntries s.entries s'.entries := by
  obtain ⟨_, known⟩ := Option.isSome_iff_exists.mp (show ((run (accepting ripeLibrary) bare
    inTwo).bind fun w => (snapshot ripeLibrary none w).toOption).isSome from by decide +kernel)
  obtain ⟨w, led, known⟩ := Option.bind_eq_some_iff.mp known
  obtain ⟨w', led'⟩ : ∃ w, run (accepting ripeLibrary) bare inOne = some w :=
    Option.isSome_iff_exists.mp (by decide +kernel)
  have made : create "world" { maxMediaRefs := 1 } ["camera"] [none] = .ok bare := rfl
  have checked : ∀ claim ∈ claimsOf inTwo, Claim.checked claim = true := by decide +kernel
  have same : ∀ claim, claim ∈ claimsOf inTwo ↔ claim ∈ claimsOf inOne :=
    fun claim => (List.Perm.swap ripe red []).mem_iff
  obtain ⟨failed, -⟩ | ⟨s, s', taken, taken', entries⟩ :=
    order_irrelevant ripeLibrary_correct made checked same led led' none
  · rw [failed] at known
    cases known
  · exact ⟨w, w', s, s', led, led', taken, taken', entries⟩

end Example

end RoboAgent.WorldOrders
