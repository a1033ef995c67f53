import Mathlib

/-! A queue of stamped items on its way into a log. An item is admitted with the next stamp, and
later delivered into the log or taken back. A cut is a mark that has to come between the items
stamped up to its bound and the later ones; its bound is read long before the mark is made. However
the moves interleave, no item is lost or doubled and the log stays in order. -/

namespace RoboAgent.OrderedDelivery

variable {α : Type} (stamp : α → Nat)

inductive Mark (α : Type)
  | item (a : α)
  | cut (bound : Nat)
  | other

/-- What a log in order asks of two of its marks. -/
def Precedes : Mark α → Mark α → Prop
  | .item a, .item b => stamp a < stamp b
  | .item a, .cut bound => stamp a ≤ bound
  | .cut bound, .item b => bound < stamp b
  | .cut _, .cut _ | .cut _, .other | .item _, .other | .other, _ => True

def Mark.item? : Mark α → Option α
  | .item a => some a
  | .cut _ | .other => none

def items (log : List (Mark α)) : List α := log.filterMap Mark.item?

structure Mailbox (α : Type) where
  admitted : List α
  queue : List α
  taken : List α
  log : List (Mark α)
  last : Nat
  /-- The bound of a cut whose mark is still to be made. -/
  open_ : Option Nat

structure Orderly (m : Mailbox α) : Prop where
  increasing : (m.admitted.map stamp).Pairwise (· < ·)
  stamped : ∀ a ∈ m.admitted, stamp a ≤ m.last
  kept : (items m.log ++ m.taken ++ m.queue).Perm m.admitted
  ordered : (m.log ++ m.queue.map Mark.item).Pairwise (Precedes stamp)
  bounded : ∀ bound, .cut bound ∈ m.log → bound ≤ m.last
  cut : ∀ bound, m.open_ = some bound →
    bound ≤ m.last ∧ ∀ a, .item a ∈ m.log → stamp a ≤ bound

def within (bound : Nat) (a : α) : Bool := stamp a ≤ bound

/-- The queue up to a bound. -/
def through (bound : Nat) (queue : List α) : List α := queue.takeWhile (within stamp bound)

/-- The moves of a mailbox, a step that does not concern it among them. -/
inductive Moves (m : Mailbox α) : Mailbox α → Prop
  | stay : Moves m m
  | accept (a : α) (next : stamp a = m.last + 1) :
    Moves m { m with admitted := m.admitted ++ [a], queue := m.queue ++ [a], last := m.last + 1 }
  | deliver (closed : m.open_ = none) :
    Moves m { m with queue := [], log := m.log ++ m.queue.map Mark.item }
  | deliverThrough {bound : Nat} {cuts : List (Mark α)} (opened : m.open_ = some bound)
    (same : ∀ mark ∈ cuts, mark = .cut bound) :
    Moves m { m with
      queue := m.queue.drop (through stamp bound m.queue).length
      log := m.log ++ ((through stamp bound m.queue).map Mark.item ++ cuts)
      open_ := none }
  | take : Moves m { m with queue := [], taken := m.taken ++ m.queue }
  | note {marks : List (Mark α)} (other : ∀ mark ∈ marks, mark = .other) :
    Moves m { m with log := m.log ++ marks }
  | openCut : Moves m { m with open_ := some m.last }
  | dropCut : Moves m { m with open_ := none }

theorem items_append (first second : List (Mark α)) :
    items (first ++ second) = items first ++ items second := List.filterMap_append

theorem items_map_item (queue : List α) : items (queue.map Mark.item) = queue := by
  rw [items, List.filterMap_map]
  exact List.filterMap_some

theorem items_eq_nil {marks : List (Mark α)} (h : ∀ mark ∈ marks, Mark.item? mark = none) :
    items marks = [] := List.filterMap_eq_nil_iff.mpr h

theorem mem_items {log : List (Mark α)} {a : α} (h : .item a ∈ log) : a ∈ items log :=
  List.mem_filterMap.mpr ⟨.item a, h, rfl⟩

theorem drop_through (bound : Nat) (queue : List α) :
    queue.drop (through stamp bound queue).length = queue.dropWhile (within stamp bound) := by
  have split := List.takeWhile_append_dropWhile (p := within stamp bound) (l := queue)
  calc
    queue.drop (through stamp bound queue).length
      = (through stamp bound queue ++ queue.dropWhile (within stamp bound)).drop
          (through stamp bound queue).length := by rw [through, split]
    _ = queue.dropWhile (within stamp bound) := List.drop_left

theorem through_append_drop (bound : Nat) (queue : List α) :
    through stamp bound queue ++ queue.drop (through stamp bound queue).length = queue := by
  rw [drop_through]
  exact List.takeWhile_append_dropWhile

variable {stamp}

theorem le_of_mem_through {bound : Nat} {queue : List α} {a : α}
    (h : a ∈ through stamp bound queue) : stamp a ≤ bound :=
  of_decide_eq_true (List.mem_takeWhile_imp (p := within stamp bound) h)

theorem lt_of_mem_drop {bound : Nat} {queue : List α}
    (increasing : queue.Pairwise fun a b => stamp a < stamp b) :
    ∀ a ∈ queue.drop (through stamp bound queue).length, bound < stamp a := by
  rw [drop_through]
  induction queue with
  | nil => exact fun _ mem => nomatch mem
  | cons first rest ih =>
    rw [List.pairwise_cons] at increasing
    intro a mem
    by_cases inside : within stamp bound first
    · rw [List.dropWhile_cons_of_pos inside] at mem
      exact ih increasing.2 a mem
    · rw [List.dropWhile_cons_of_neg inside] at mem
      rw [within, decide_eq_true_eq] at inside
      cases mem with
      | head => omega
      | tail _ later =>
        have := increasing.1 a later
        omega

/-- A list between two others may change places with the second. -/
theorem perm_swap_right (first second third : List α) :
    (first ++ second ++ third).Perm (first ++ third ++ second) := by
  rw [List.append_assoc, List.append_assoc]
  exact List.perm_append_comm.append_left first

theorem not_cut_of_item {queue : List α} {mark : Mark α} (h : mark ∈ queue.map Mark.item) :
    ∃ a ∈ queue, mark = .item a := by
  obtain ⟨a, mem, rfl⟩ := List.mem_map.mp h
  exact ⟨a, mem, rfl⟩

namespace Orderly
variable {m : Mailbox α}

theorem queue_increasing (h : Orderly stamp m) :
    m.queue.Pairwise fun a b => stamp a < stamp b := by
  have queued := (List.pairwise_append.mp h.ordered).2.1
  rw [List.pairwise_map] at queued
  exact queued

theorem accept (h : Orderly stamp m) {a : α} (next : stamp a = m.last + 1) : Orderly stamp { m with
    admitted := m.admitted ++ [a], queue := m.queue ++ [a], last := m.last + 1 } := by
  have below : ∀ b ∈ m.admitted, stamp b < stamp a := fun b mem => by
    have := h.stamped b mem
    omega
  constructor
  · rw [List.map_append, List.pairwise_append]
    refine ⟨h.increasing, List.pairwise_singleton .., fun n mem k single => ?_⟩
    obtain ⟨b, admitted, rfl⟩ := List.mem_map.mp mem
    rw [List.map_singleton, List.mem_singleton] at single
    exact single ▸ below b admitted
  · intro b mem
    rw [List.mem_append, List.mem_singleton] at mem
    obtain mem | rfl := mem
    · exact (h.stamped b mem).trans (Nat.le_succ _)
    · exact next.le
  · rw [← List.append_assoc]
    exact h.kept.append_right [a]
  · rw [List.map_append, ← List.append_assoc, List.pairwise_append]
    refine ⟨h.ordered, List.pairwise_singleton .., fun mark mem last single => ?_⟩
    rw [List.map_singleton, List.mem_singleton] at single
    subst single
    rw [List.mem_append] at mem
    cases mem with
    | inl logged =>
      cases mark with
      | other => trivial
      | item b =>
        apply below
        exact h.kept.subset (List.mem_append_left _ (List.mem_append_left _ (mem_items logged)))
      | cut bound =>
        have := h.bounded bound logged
        exact Nat.lt_of_le_of_lt this (by omega)
    | inr queued =>
      obtain ⟨b, mem, rfl⟩ := not_cut_of_item queued
      exact below b (h.kept.subset (List.mem_append_right _ mem))
  · exact fun bound mem => (h.bounded bound mem).trans (Nat.le_succ _)
  · exact fun bound opened =>
      ⟨(h.cut bound opened).1.trans (Nat.le_succ _), (h.cut bound opened).2⟩

theorem deliver (h : Orderly stamp m) (closed : m.open_ = none) :
    Orderly stamp { m with queue := [], log := m.log ++ m.queue.map Mark.item } := by
  constructor
  · exact h.increasing
  · exact h.stamped
  · rw [items_append, items_map_item, List.append_nil]
    exact (perm_swap_right ..).trans h.kept
  · rw [List.map_nil, List.append_nil]
    exact h.ordered
  · intro bound mem
    refine (List.mem_append.mp mem).elim (h.bounded bound) fun queued => ?_
    obtain ⟨c, -, same⟩ := not_cut_of_item queued
    cases same
  · intro bound opened
    rw [show m.open_ = some bound from opened] at closed
    cases closed

theorem deliverThrough (h : Orderly stamp m) {bound : Nat} {cuts : List (Mark α)}
    (opened : m.open_ = some bound) (same : ∀ mark ∈ cuts, mark = .cut bound) :
    Orderly stamp { m with
      queue := m.queue.drop (through stamp bound m.queue).length
      log := m.log ++ ((through stamp bound m.queue).map Mark.item ++ cuts)
      open_ := none } := by
  obtain ⟨within, logged⟩ := h.cut bound opened
  have split := through_append_drop stamp bound m.queue
  have none : items cuts = [] := items_eq_nil fun mark mem => by rw [same mark mem]; rfl
  have apart := h.ordered
  rw [← split, List.map_append, ← List.append_assoc] at apart
  constructor
  · exact h.increasing
  · exact h.stamped
  · rw [items_append, items_append, items_map_item, none, List.append_nil]
    have kept := h.kept
    rw [← split, ← List.append_assoc] at kept
    exact ((perm_swap_right ..).append_right _).trans kept
  · rw [← List.append_assoc, List.append_assoc _ cuts]
    rw [List.pairwise_append] at apart ⊢
    obtain ⟨before, after, across⟩ := apart
    refine ⟨before, List.pairwise_append.mpr ⟨?_, after, ?_⟩, ?_⟩
    · exact List.pairwise_of_forall_mem_list fun a mema b memb => by
        rw [same a mema, same b memb]
        trivial
    · intro mark mem later rest
      obtain ⟨b, queued, rfl⟩ := not_cut_of_item rest
      rw [same mark mem]
      exact lt_of_mem_drop h.queue_increasing b queued
    · intro mark mem later rest
      obtain cut | queued := List.mem_append.mp rest
      · rw [same later cut]
        cases mark with
        | other => trivial
        | cut _ => trivial
        | item a =>
          obtain old | new := List.mem_append.mp mem
          · exact logged a old
          · obtain ⟨b, mem, eq⟩ := not_cut_of_item new
            cases eq
            exact le_of_mem_through mem
      · exact across mark mem later queued
  · intro n mem
    obtain old | new := List.mem_append.mp mem
    · exact h.bounded n old
    · obtain item | cut := List.mem_append.mp new
      · obtain ⟨b, -, eq⟩ := not_cut_of_item item
        cases eq
      · cases same _ cut
        exact within
  · exact fun _ absent => nomatch absent

theorem take (h : Orderly stamp m) :
    Orderly stamp { m with queue := [], taken := m.taken ++ m.queue } := by
  constructor
  · exact h.increasing
  · exact h.stamped
  · rw [List.append_nil, ← List.append_assoc]
    exact h.kept
  · rw [List.map_nil, List.append_nil]
    exact (List.pairwise_append.mp h.ordered).1
  · exact h.bounded
  · exact h.cut

theorem note (h : Orderly stamp m) {marks : List (Mark α)}
    (other : ∀ mark ∈ marks, mark = .other) : Orderly stamp { m with log := m.log ++ marks } := by
  have none : items marks = [] := items_eq_nil fun mark mem => by rw [other mark mem]; rfl
  obtain ⟨before, after, across⟩ := List.pairwise_append.mp h.ordered
  constructor
  · exact h.increasing
  · exact h.stamped
  · rw [items_append, none, List.append_nil]
    exact h.kept
  · rw [List.append_assoc, List.pairwise_append]
    refine ⟨before, List.pairwise_append.mpr ⟨?_, after, ?_⟩, ?_⟩
    · exact List.pairwise_of_forall_mem_list fun a mema b memb => by
        rw [other a mema]
        trivial
    · intro mark mem later rest
      rw [other mark mem]
      trivial
    · intro mark mem later rest
      obtain new | queued := List.mem_append.mp rest
      · rw [other later new]
        cases mark <;> trivial
      · exact across mark mem later queued
  · intro bound mem
    obtain old | new := List.mem_append.mp mem
    · exact h.bounded bound old
    · cases other _ new
  · intro bound opened
    refine ⟨(h.cut bound opened).1, fun a mem => ?_⟩
    obtain old | new := List.mem_append.mp mem
    · exact (h.cut bound opened).2 a old
    · cases other _ new

theorem openCut (h : Orderly stamp m) : Orderly stamp { m with open_ := some m.last } := by
  refine ⟨h.increasing, h.stamped, h.kept, h.ordered, h.bounded, fun bound opened => ?_⟩
  cases opened
  refine ⟨le_rfl, fun a mem => h.stamped a (h.kept.subset ?_)⟩
  exact List.mem_append_left _ (List.mem_append_left _ (mem_items mem))

theorem dropCut (h : Orderly stamp m) : Orderly stamp { m with open_ := none } :=
  ⟨h.increasing, h.stamped, h.kept, h.ordered, h.bounded, fun _ absent => nomatch absent⟩

end Orderly

/-- Every move keeps a mailbox in order. -/
theorem moves_orderly {m m' : Mailbox α} (h : Orderly stamp m) (move : Moves stamp m m') :
    Orderly stamp m' := by
  cases move with
  | stay => exact h
  | accept a next => exact h.accept next
  | deliver closed => exact h.deliver closed
  | deliverThrough opened same => exact h.deliverThrough opened same
  | take => exact h.take
  | note other => exact h.note other
  | openCut => exact h.openCut
  | dropCut => exact h.dropCut

end RoboAgent.OrderedDelivery
