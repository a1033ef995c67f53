import RoboAgent.Runs

/-! Programs that ask their surroundings. A program is done, with a value or a raise, or it asks a
question and goes on from the answer. What an answer does to the state is given apart, and which
answers are permitted; a program holds a postcondition if it ends in it whatever permitted answers
it is given. Sequencing, handlers, cleanup blocks and loops have one rule each. -/

namespace RoboAgent.Interactions

inductive Interaction (Q : Type) (A : Q → Type) (ε α : Type)
  | done (result : Except ε α)
  | ask (question : Q) (next : A question → Interaction Q A ε α)

namespace Interaction

variable {Q Q' : Type} {A : Q → Type} {A' : Q' → Type} {ε α β : Type}

def bind (program : Interaction Q A ε α) (next : α → Interaction Q A ε β) :
    Interaction Q A ε β :=
  match program with
  | .done (.ok a) => next a
  | .done (.error e) => .done (.error e)
  | .ask question rest => .ask question fun a => (rest a).bind next

def rescue (program : Interaction Q A ε α) (handler : ε → Interaction Q A ε α) :
    Interaction Q A ε α :=
  match program with
  | .done (.ok a) => .done (.ok a)
  | .done (.error e) => handler e
  | .ask question rest => .ask question fun a => (rest a).rescue handler

instance : Monad (Interaction Q A ε) where
  pure a := .done (.ok a)
  bind := bind

instance : MonadExceptOf ε (Interaction Q A ε) where
  throw e := .done (.error e)
  tryCatch := rescue

/-- Ask one question and return its answer. -/
def request (question : Q) : Interaction Q A ε (A question) :=
  .ask question fun a => .done (.ok a)

/-- Run a cleanup after a program; a raise of the cleanup replaces the program's own result. -/
def ensuring (program : Interaction Q A ε α) (cleanup : Interaction Q A ε Unit) :
    Interaction Q A ε α :=
  match program with
  | .done result => cleanup.bind fun _ => .done result
  | .ask question rest => .ask question fun a => (rest a).ensuring cleanup

/-- A program whose questions are asked as those of a larger signature. -/
def embed (f : Q → Q') (g : (q : Q) → A' (f q) → A q) :
    Interaction Q A ε α → Interaction Q' A' ε α
  | .done result => .done result
  | .ask question next => .ask (f question) fun a => (next (g question a)).embed f g

end Interaction

open Interaction

section Holds
variable {Q : Type} {A : Q → Type} {ε α β σ : Type}
variable (answer : σ → (q : Q) → A q → Option σ) (permitted : σ → (q : Q) → A q → Prop)

/-- Whatever permitted answers the program gets, it ends in the postcondition. -/
def Holds (post : Except ε α → σ → Prop) : Interaction Q A ε α → σ → Prop
  | .done result, s => post result s
  | .ask q next, s => ∀ a s', answer s q a = some s' → permitted s q a → Holds post (next a) s'

variable {answer permitted} {post post' : Except ε α → σ → Prop} {s : σ}

theorem holds_pure {a : α} (h : post (.ok a) s) :
    Holds answer permitted post (pure a : Interaction Q A ε α) s := h

theorem holds_throw {e : ε} (h : post (.error e) s) :
    Holds answer permitted post (throw e : Interaction Q A ε α) s := h

theorem holds_request {q : Q} {post : Except ε (A q) → σ → Prop}
    (h : ∀ a s', answer s q a = some s' → permitted s q a → post (.ok a) s') :
    Holds answer permitted post (request q : Interaction Q A ε (A q)) s := h

theorem holds_mono {program : Interaction Q A ε α} (h : Holds answer permitted post program s)
    (weaker : ∀ result s', post result s' → post' result s') :
    Holds answer permitted post' program s := by
  induction program generalizing s with
  | done result => exact weaker result s h
  | ask q next ih => exact fun a s' answered allowed => ih a (h a s' answered allowed)

theorem holds_bind {program : Interaction Q A ε α} {next : α → Interaction Q A ε β}
    {after : Except ε β → σ → Prop} (first : Holds answer permitted post program s)
    (returned : ∀ a s', post (.ok a) s' → Holds answer permitted after (next a) s')
    (raised : ∀ e s', post (.error e) s' → after (.error e) s') :
    Holds answer permitted after (program >>= next) s := by
  induction program generalizing s with
  | done result =>
    cases result with
    | ok a => exact returned a s first
    | error e => exact raised e s first
  | ask q rest ih => exact fun a s' answered allowed => ih a (first a s' answered allowed)

/-- A question first, then the rest of the program. -/
theorem holds_request_bind {q : Q} {next : A q → Interaction Q A ε β}
    {after : Except ε β → σ → Prop}
    (h : ∀ a s', answer s q a = some s' → permitted s q a →
      Holds answer permitted after (next a) s') :
    Holds answer permitted after (request q >>= next) s := h

theorem holds_tryCatch {program : Interaction Q A ε α} {handler : ε → Interaction Q A ε α}
    (body : Holds answer permitted post program s)
    (returned : ∀ a s', post (.ok a) s' → post' (.ok a) s')
    (handled : ∀ e s', post (.error e) s' → Holds answer permitted post' (handler e) s') :
    Holds answer permitted post' (tryCatch program handler) s := by
  induction program generalizing s with
  | done result =>
    cases result with
    | ok a => exact returned a s body
    | error e => exact handled e s body
  | ask q rest ih => exact fun a s' answered allowed => ih a (body a s' answered allowed)

theorem holds_ensuring {program : Interaction Q A ε α} {cleanup : Interaction Q A ε Unit}
    (body : Holds answer permitted post program s)
    (cleaned : ∀ result s', post result s' → Holds answer permitted
      (fun ending s'' => match ending with
        | .ok _ => post' result s''
        | .error e => post' (.error e) s'') cleanup s') :
    Holds answer permitted post' (ensuring program cleanup) s := by
  induction program generalizing s with
  | done result =>
    exact holds_bind (cleaned result s body) (fun _ _ h => h) fun _ _ h => h
  | ask q rest ih => exact fun a s' answered allowed => ih a (body a s' answered allowed)

theorem holds_ite {condition : Prop} [Decidable condition] {program other : Interaction Q A ε α}
    (whenTrue : condition → Holds answer permitted post program s)
    (whenFalse : ¬condition → Holds answer permitted post other s) :
    Holds answer permitted post (if condition then program else other) s := by
  split_ifs with h
  · exact whenTrue h
  · exact whenFalse h

/-- A loop over a list, with an invariant that every round keeps. -/
theorem holds_forM {ι : Type} {body : ι → Interaction Q A ε PUnit} {I : σ → Prop}
    {R : ε → σ → Prop} (items : List ι) (start : I s)
    (round : ∀ item s, I s → Holds answer permitted
      (fun result s' => match result with
        | .ok _ => I s'
        | .error e => R e s') (body item) s) :
    Holds answer permitted
      (fun result s' => match result with
        | .ok _ => I s'
        | .error e => R e s') (items.forM body) s := by
  induction items generalizing s with
  | nil => exact start
  | cons item rest ih => exact holds_bind (round item s start) (fun _ _ kept => ih kept) fun _ _ h => h

end Holds

section Embed
variable {Q Q' : Type} {A : Q → Type} {A' : Q' → Type} {ε α σ τ : Type}
variable {answer : σ → (q : Q) → A q → Option σ} {permitted : σ → (q : Q) → A q → Prop}
variable {answer' : τ → (q : Q') → A' q → Option τ} {permitted' : τ → (q : Q') → A' q → Prop}

/-- What a program does in its own state it does in its part of a larger one. -/
theorem holds_embed {f : Q → Q'} {g : (q : Q) → A' (f q) → A q} {related : τ → σ → Prop}
    (simulated : ∀ t s q a t', related t s → answer' t (f q) a = some t' →
      permitted' t (f q) a →
      ∃ s', answer s q (g q a) = some s' ∧ permitted s q (g q a) ∧ related t' s')
    {post : Except ε α → σ → Prop} {program : Interaction Q A ε α} {t : τ} {s : σ}
    (start : related t s) (h : Holds answer permitted post program s) :
    Holds answer' permitted' (fun result t' => ∃ s', related t' s' ∧ post result s')
      (program.embed f g) t := by
  induction program generalizing t s with
  | done result => exact ⟨s, start, h⟩
  | ask q next ih =>
    intro a t' answered allowed
    obtain ⟨s', own, fine, later⟩ := simulated t s q a t' start answered allowed
    exact ih (g q a) later (h (g q a) s' own fine)

end Embed

section Steps
variable {Q : Type} {A : Q → Type} {ε α σ : Type} [DecidableEq Q]

/-- One question of a program is answered. -/
def advance (answer : σ → (q : Q) → A q → Option σ) (program : Interaction Q A ε α) (s : σ)
    (event : Σ q, A q) : Option (Interaction Q A ε α × σ) :=
  match program with
  | .done _ => none
  | .ask q next =>
    if same : event.1 = q then
      (answer s q (same ▸ event.2)).map fun s' => (next (same ▸ event.2), s')
    else none

variable {answer : σ → (q : Q) → A q → Option σ} {program program' : Interaction Q A ε α}
variable {s s' : σ} {event : Σ q, A q}

theorem advance_eq_some (h : advance answer program s event = some (program', s')) :
    ∃ q a next, event = ⟨q, a⟩ ∧ program = .ask q next ∧ program' = next a ∧
      answer s q a = some s' := by
  cases program with
  | done result => cases h
  | ask q next =>
    obtain ⟨q', a⟩ := event
    rw [advance] at h
    split_ifs at h with same
    cases same
    obtain ⟨t, answered, made⟩ := Option.map_eq_some_iff.mp h
    cases made
    exact ⟨q', a, next, rfl, rfl, rfl, answered⟩

theorem holds_advance {permitted : σ → (q : Q) → A q → Prop} {post : Except ε α → σ → Prop}
    (h : Holds answer permitted post program s)
    (moved : advance answer program s event = some (program', s'))
    (allowed : permitted s event.1 event.2) : Holds answer permitted post program' s' := by
  obtain ⟨q, a, next, rfl, rfl, rfl, answered⟩ := advance_eq_some moved
  exact h a s' answered allowed

end Steps

end RoboAgent.Interactions
