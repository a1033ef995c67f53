import Mathlib

/-! Stateful programs that may raise, and a logic of triples for them.
A program maps a state to a result and the state it leaves; the state survives a raise, as it
does in a language whose objects are mutated in place. A triple has one postcondition for a
normal return and one for a raise. Sequencing, handlers, cleanup blocks and loops over a list
each have one rule. -/

namespace RoboAgent.FalliblePrograms

variable {σ ε α β : Type}

@[simp] theorem ok_bind (a : α) (f : α → Except ε β) :
    ((.ok a : Except ε α) >>= f) = f a := rfl

@[simp] theorem map_ok (f : α → β) (a : α) : (Except.ok a : Except ε α).map f = .ok (f a) := rfl

theorem bind_of_ok {value : Except ε α} {a : α} (h : value = .ok a) (next : α → Except ε β) :
    value >>= next = next a := by
  rw [h, ok_bind]

theorem bind_eq_ok {value : Except ε α} {f : α → Except ε β} {result : β}
    (h : value >>= f = .ok result) : ∃ a, value = .ok a ∧ f a = .ok result := by
  cases value with
  | error raised => cases h
  | ok a => exact ⟨a, rfl, h⟩

theorem map_eq_ok {value : Except ε α} {f : α → β} {result : β}
    (h : value.map f = .ok result) : ∃ a, value = .ok a ∧ f a = result := by
  cases value with
  | error raised => cases h
  | ok a => exact ⟨a, rfl, Except.ok.inj h⟩

/-- Each result of a loop is the result of one of its rounds. -/
theorem mem_of_mapM {f : α → Except ε β} {values : List α} {results : List β}
    (h : values.mapM f = .ok results) : ∀ b ∈ results, ∃ a ∈ values, f a = .ok b := by
  induction values generalizing results with
  | nil =>
    cases h
    exact nofun
  | cons value values ih =>
    rw [List.mapM_cons] at h
    obtain ⟨first, made, h⟩ := bind_eq_ok h
    obtain ⟨rest, later, h⟩ := bind_eq_ok h
    cases h
    refine List.forall_mem_cons.mpr ⟨⟨value, List.mem_cons_self, made⟩, fun b mem => ?_⟩
    obtain ⟨a, inside, made⟩ := ih later b mem
    exact ⟨a, List.mem_cons_of_mem _ inside, made⟩

theorem mapM_eq_map {f : α → Except ε β} {g : α → β} {values : List α}
    (h : ∀ a ∈ values, f a = .ok (g a)) : values.mapM f = .ok (values.map g) := by
  induction values with
  | nil => rfl
  | cons value values ih =>
    obtain ⟨first, later⟩ := List.forall_mem_cons.mp h
    rw [List.mapM_cons, first, ok_bind, ih later]
    rfl

theorem anyM_eq_any {f : α → Except ε Bool} {g : α → Bool} {values : List α}
    (h : ∀ a ∈ values, f a = .ok (g a)) : values.anyM f = .ok (values.any g) := by
  induction values with
  | nil => rfl
  | cons value values ih =>
    obtain ⟨first, later⟩ := List.forall_mem_cons.mp h
    rw [List.anyM, first, ok_bind, List.any_cons]
    cases g value with
    | true => rfl
    | false => exact ih later

/-- A loop that ends ran every round to its end. -/
theorem ok_of_mapM {f : α → Except ε β} {values : List α} {results : List β}
    (h : values.mapM f = .ok results) : ∀ a ∈ values, ∃ b, f a = .ok b := by
  induction values generalizing results with
  | nil => exact nofun
  | cons value values ih =>
    rw [List.mapM_cons] at h
    obtain ⟨first, made, h⟩ := bind_eq_ok h
    obtain ⟨rest, later, -⟩ := bind_eq_ok h
    exact List.forall_mem_cons.mpr ⟨⟨first, made⟩, ih later⟩

theorem mapM_eq_ok_iff {f : α → Except ε β} {values : List α} {results : List β} :
    values.mapM f = .ok results ↔ List.Forall₂ (fun a b => f a = .ok b) values results := by
  induction values generalizing results with
  | nil =>
    rw [List.forall₂_nil_left_iff, List.mapM_nil]
    exact ⟨fun h => (Except.ok.inj h).symm, fun h => congrArg _ h.symm⟩
  | cons value values ih =>
    rw [List.mapM_cons, List.forall₂_cons_left_iff]
    refine ⟨fun h => ?_, ?_⟩
    · obtain ⟨first, made, h⟩ := bind_eq_ok h
      obtain ⟨rest, later, h⟩ := bind_eq_ok h
      exact ⟨first, rest, made, ih.mp later, (Except.ok.inj h).symm⟩
    · rintro ⟨first, rest, made, later, rfl⟩
      rw [made, ok_bind, ih.mpr later]
      rfl

theorem exists_of_mem_left {R : α → β → Prop} {left : List α} {right : List β}
    (h : List.Forall₂ R left right) : ∀ a ∈ left, ∃ b ∈ right, R a b := by
  induction h with
  | nil => exact nofun
  | cons first _ ih =>
    refine List.forall_mem_cons.mpr ⟨⟨_, List.mem_cons_self, first⟩, fun a mem => ?_⟩
    obtain ⟨b, inside, related⟩ := ih a mem
    exact ⟨b, List.mem_cons_of_mem _ inside, related⟩

theorem exists_of_mem_right {R : α → β → Prop} {left : List α} {right : List β}
    (h : List.Forall₂ R left right) : ∀ b ∈ right, ∃ a ∈ left, R a b :=
  exists_of_mem_left h.flip

theorem mem_mapM_iff {f : α → Except ε β} {values : List α} {results : List β}
    (h : values.mapM f = .ok results) {b : β} : b ∈ results ↔ ∃ a ∈ values, f a = .ok b := by
  refine ⟨mem_of_mapM h b, ?_⟩
  rintro ⟨a, mem, made⟩
  obtain ⟨b', inside, same⟩ := exists_of_mem_left (mapM_eq_ok_iff.mp h) a mem
  rw [made] at same
  cases same
  exact inside

/-- A loop whose every round ends, ends. -/
theorem exists_mapM {f : α → Except ε β} {values : List α} (h : ∀ a ∈ values, ∃ b, f a = .ok b) :
    ∃ results, values.mapM f = .ok results := by
  induction values with
  | nil => exact ⟨[], rfl⟩
  | cons value values ih =>
    obtain ⟨⟨first, made⟩, rest⟩ := List.forall_mem_cons.mp h
    obtain ⟨results, later⟩ := ih rest
    exact ⟨first :: results, by rw [List.mapM_cons, made, ok_bind, later]; rfl⟩

/-- A loop that carries a state, with an invariant over the part already done. -/
theorem foldlM_invariant {f : σ → α → Except ε σ} (invariant : List α → σ → Prop) {items : List α}
    {s s' : σ} (start : invariant [] s)
    (step : ∀ done item s s', item ∈ items → invariant done s → f s item = .ok s' →
      invariant (done ++ [item]) s')
    (h : items.foldlM f s = .ok s') : invariant items s' := by
  suffices each : ∀ rest done t, (∀ item ∈ rest, item ∈ items) → invariant done t →
      rest.foldlM f t = .ok s' → invariant (done ++ rest) s' from
    each items [] s (fun _ mem => mem) start h
  intro rest
  induction rest with
  | nil =>
    intro done t _ held h
    cases h
    rwa [List.append_nil]
  | cons item rest ih =>
    intro done t inside held h
    rw [List.foldlM_cons] at h
    obtain ⟨next, made, h⟩ := bind_eq_ok h
    have round := step done item t next (inside item List.mem_cons_self) held made
    have later := ih (done ++ [item]) next (fun i mem => inside i (List.mem_cons_of_mem _ mem))
      round h
    rwa [List.append_assoc, List.singleton_append] at later

/-- Whatever the computation raises is of this kind. -/
def Raises (P : ε → Prop) (value : Except ε α) : Prop := ∀ error, value = .error error → P error

section
variable {P : ε → Prop}

theorem raises_ok (a : α) : Raises P (.ok a : Except ε α) := nofun

theorem raises_error {error : ε} (h : P error) : Raises P (.error error : Except ε α) := by
  rintro _ ⟨⟩
  exact h

theorem raises_imp {Q : ε → Prop} {value : Except ε α} (h : Raises P value)
    (imp : ∀ error, P error → Q error) : Raises Q value :=
  fun error raised => imp error (h error raised)

theorem raises_bind {value : Except ε α} {next : α → Except ε β} (first : Raises P value)
    (second : ∀ a, value = .ok a → Raises P (next a)) : Raises P (value >>= next) := by
  cases value with
  | error error => exact raises_error (first error rfl)
  | ok a => exact second a rfl

theorem raises_map {value : Except ε α} {f : α → β} (h : Raises P value) :
    Raises P (value.map f) := by
  cases value with
  | error error => exact raises_error (h error rfl)
  | ok a => exact raises_ok _

theorem raises_forIn {body : α → β → Except ε (ForInStep β)} {items : List α} (init : β)
    (h : ∀ a ∈ items, ∀ b, Raises P (body a b)) : Raises P (forIn items init body) := by
  induction items generalizing init with
  | nil => exact raises_ok _
  | cons a items ih =>
    obtain ⟨first, later⟩ := List.forall_mem_cons.mp h
    rw [List.forIn_cons]
    refine raises_bind (first init) fun step _ => ?_
    cases step with
    | done b => exact raises_ok b
    | yield b => exact ih b later

end

section
variable (size : β → Nat)

/-- What two loops over related lists gain in one round, they gain in all. -/
theorem sum_le_of_mapM {R : α → α → Prop} {f : α → Except ε β} {g : α → Except ε Nat}
    {left right : List α} (related : List.Forall₂ R left right)
    (each : ∀ a ∈ left, ∀ b ∈ right, ∀ x x' k k', R a b → f a = .ok x → f b = .ok x' →
      g a = .ok k → g b = .ok k' → size x' + k ≤ size x + k')
    {xs xs' : List β} {ks ks' : List Nat} (made : left.mapM f = .ok xs)
    (made' : right.mapM f = .ok xs') (counted : left.mapM g = .ok ks)
    (counted' : right.mapM g = .ok ks') :
    (xs'.map size).sum + ks.sum ≤ (xs.map size).sum + ks'.sum := by
  rw [mapM_eq_ok_iff] at made made' counted counted'
  induction related generalizing xs xs' ks ks' with
  | nil =>
    cases made
    cases made'
    cases counted
    cases counted'
    exact Nat.le_refl _
  | cons first _ ih =>
    cases made with | cons one more =>
    cases made' with | cons one' more' =>
    cases counted with | cons count counts =>
    cases counted' with | cons count' counts' =>
    have here := each _ List.mem_cons_self _ List.mem_cons_self _ _ _ _ first one one' count count'
    have rest := ih (fun a mem b mem' => each a (List.mem_cons_of_mem _ mem) b
      (List.mem_cons_of_mem _ mem')) more more' counts counts'
    simp only [List.map_cons, List.sum_cons]
    omega

/-- A loop over changed values, each of which adds something. -/
theorem mapM_extra (change : α → α) (extra : α → Nat) {f : α → Except ε β} {values : List α}
    {results : List β} (h : values.mapM f = .ok results)
    (each : ∀ a ∈ values, ∀ b, f a = .ok b →
      ∃ b', f (change a) = .ok b' ∧ size b' = size b + extra a) :
    ∃ results', (values.map change).mapM f = .ok results' ∧
      (results'.map size).sum = (results.map size).sum + (values.map extra).sum := by
  simp only [mapM_eq_ok_iff] at h ⊢
  induction h with
  | nil => exact ⟨[], .nil, rfl⟩
  | cons made _ ih =>
    obtain ⟨first, again, bigger⟩ := each _ List.mem_cons_self _ made
    obtain ⟨rest, more, sums⟩ := ih fun a mem => each a (List.mem_cons_of_mem _ mem)
    refine ⟨first :: rest, .cons again more, ?_⟩
    simp only [List.map_cons, List.sum_cons]
    omega

end

abbrev Program (σ ε α : Type) := ExceptT ε (StateM σ) α

def exec (program : Program σ ε α) (s : σ) : Except ε α × σ := program s

@[simp] theorem exec_pure (a : α) (s : σ) : exec (pure a : Program σ ε α) s = (.ok a, s) := rfl

@[simp] theorem exec_throw (error : ε) (s : σ) :
    exec (throw error : Program σ ε α) s = (.error error, s) := rfl

@[simp] theorem exec_get (s : σ) : exec (get : Program σ ε σ) s = (.ok s, s) := rfl

@[simp] theorem exec_set (next s : σ) :
    exec (set next : Program σ ε PUnit) s = (.ok ⟨⟩, next) := rfl

@[simp] theorem exec_modify (f : σ → σ) (s : σ) :
    exec (modify f : Program σ ε PUnit) s = (.ok ⟨⟩, f s) := rfl

/-- A computation that reads no state, as a program. -/
def raising (value : Except ε α) : Program σ ε α := fun s => (value, s)

@[simp] theorem exec_raising (value : Except ε α) (s : σ) :
    exec (raising value : Program σ ε α) s = (value, s) := rfl

theorem exec_bind (program : Program σ ε α) (next : α → Program σ ε β) (s : σ) :
    exec (program >>= next) s =
      match exec program s with
      | (.ok a, s') => exec (next a) s'
      | (.error error, s') => (.error error, s') := by
  change (ExceptT.bindCont next (program s).1) (program s).2 = _
  unfold exec
  rcases program s with ⟨_ | _, _⟩ <;> rfl

/-- A sequence that returns ran its first program to its end. -/
theorem exec_bind_ok {program : Program σ ε α} {next : α → Program σ ε β} {s s' : σ} {b : β}
    (h : exec (program >>= next) s = (.ok b, s')) :
    ∃ a t, exec program s = (.ok a, t) ∧ exec (next a) t = (.ok b, s') := by
  rw [exec_bind] at h
  generalize exec program s = result at h ⊢
  rcases result with ⟨error | a, t⟩
  · cases h
  · exact ⟨a, t, rfl, h⟩

theorem exec_bind_of_ok {program : Program σ ε α} {next : α → Program σ ε β} {s t : σ} {a : α}
    (h : exec program s = (.ok a, t)) : exec (program >>= next) s = exec (next a) t := by
  rw [exec_bind, h]

theorem exec_bind_of_error {program : Program σ ε α} {next : α → Program σ ε β} {s t : σ}
    {error : ε} (h : exec program s = (.error error, t)) :
    exec (program >>= next) s = (.error error, t) := by
  rw [exec_bind, h]

theorem length_of_exec_mapM {f : α → Program σ ε β} {values : List α} {results : List β}
    {s s' : σ} (h : exec (values.mapM f) s = (.ok results, s')) :
    results.length = values.length := by
  induction values generalizing results s with
  | nil =>
    cases h
    rfl
  | cons value values ih =>
    rw [List.mapM_cons] at h
    obtain ⟨first, t, -, h⟩ := exec_bind_ok h
    obtain ⟨rest, t, later, h⟩ := exec_bind_ok h
    cases h
    exact congrArg (· + 1) (ih later)

theorem exec_ite (condition : Prop) [Decidable condition] (program other : Program σ ε α) (s : σ) :
    exec (if condition then program else other) s =
      if condition then exec program s else exec other s := by
  split_ifs <;> rfl

theorem exec_tryCatch (program : Program σ ε α) (handler : ε → Program σ ε α) (s : σ) :
    exec (tryCatch program handler) s =
      match exec program s with
      | (.ok a, s') => (.ok a, s')
      | (.error error, s') => exec (handler error) s' := by
  unfold exec
  change (match (program s).1 with
    | .ok a => pure (.ok a)
    | .error error => handler error : StateM σ (Except ε α)) (program s).2 = _
  rcases program s with ⟨_ | _, _⟩ <;> rfl

/-- Run a program and hand its result, or what it raised, to the caller. -/
def attempt (program : Program σ ε α) : Program σ ε (Except ε α) := fun s =>
  (.ok (program s).1, (program s).2)

theorem exec_attempt (program : Program σ ε α) (s : σ) :
    exec (attempt program) s = (.ok (exec program s).1, (exec program s).2) := rfl

/-- Run a cleanup after a program; a raise of the cleanup replaces the program's own result. -/
def ensuring (program : Program σ ε α) (cleanup : Program σ ε Unit) : Program σ ε α := do
  let result ← attempt program
  cleanup
  match result with
  | .ok a => pure a
  | .error error => throw error

/-- From `before`, a normal return ends in `after` and a raise ends in `R`. -/
def Triple (before : σ → Prop) (program : Program σ ε α)
    (after : α → σ → Prop) (R : ε → σ → Prop) : Prop :=
  ∀ s, before s →
    match exec program s with
    | (.ok a, s') => after a s'
    | (.error error, s') => R error s'

theorem ok_of_triple {before : σ → Prop} {program : Program σ ε α} {after : α → σ → Prop}
    {R : ε → σ → Prop} (triple : Triple before program after R) {s t : σ} {a : α} (hs : before s)
    (h : exec program s = (.ok a, t)) : after a t := by
  have outcome := triple s hs
  rwa [h] at outcome

theorem error_of_triple {before : σ → Prop} {program : Program σ ε α} {after : α → σ → Prop}
    {R : ε → σ → Prop} (triple : Triple before program after R) {s t : σ} {error : ε} (hs : before s)
    (h : exec program s = (.error error, t)) : R error t := by
  have outcome := triple s hs
  rwa [h] at outcome

theorem triple_pure {a : α} {before : σ → Prop} {after : α → σ → Prop}
    {R : ε → σ → Prop} (h : ∀ s, before s → after a s) :
    Triple before (pure a) after R := h

theorem triple_throw {error : ε} {before : σ → Prop} {after : α → σ → Prop}
    {R : ε → σ → Prop} (h : ∀ s, before s → R error s) :
    Triple before (throw error) after R := h

theorem triple_get {before : σ → Prop} {after : σ → σ → Prop} {R : ε → σ → Prop}
    (h : ∀ s, before s → after s s) : Triple before get after R := h

theorem triple_modify {f : σ → σ} {before : σ → Prop} {after : PUnit → σ → Prop}
    {R : ε → σ → Prop} (h : ∀ s, before s → after ⟨⟩ (f s)) :
    Triple before (modify f) after R := h

theorem triple_consequence {before before' : σ → Prop} {program : Program σ ε α}
    {after after' : α → σ → Prop} {R R' : ε → σ → Prop}
    (triple : Triple before' program after' R') (pre : ∀ s, before s → before' s)
    (post : ∀ a s, after' a s → after a s) (exceptional : ∀ error s, R' error s → R error s) :
    Triple before program after R := by
  intro s hs
  have outcome := triple s (pre s hs)
  generalize exec program s = result at outcome ⊢
  rcases result with ⟨error | a, s'⟩
  · exact exceptional error s' outcome
  · exact post a s' outcome

theorem triple_bind {before : σ → Prop} {program : Program σ ε α} {M : α → σ → Prop}
    {next : α → Program σ ε β} {after : β → σ → Prop} {R : ε → σ → Prop}
    (first : Triple before program M R)
    (second : ∀ a, Triple (M a) (next a) after R) :
    Triple before (program >>= next) after R := by
  intro s hs
  have outcome := first s hs
  rw [exec_bind]
  generalize exec program s = result at outcome ⊢
  rcases result with ⟨error | a, s'⟩
  · exact outcome
  · exact second a s' outcome

theorem triple_get_bind {before : σ → Prop} {next : σ → Program σ ε α} {after : α → σ → Prop}
    {R : ε → σ → Prop} (h : ∀ s, before s → Triple (· = s) (next s) after R) :
    Triple before (get >>= next) after R := by
  intro s hs
  rw [exec_bind, exec_get]
  exact h s hs s rfl

theorem triple_modify_bind {f : σ → σ} {before : σ → Prop} {next : PUnit → Program σ ε α}
    {after : α → σ → Prop} {R : ε → σ → Prop}
    (h : ∀ s, before s → Triple (· = f s) (next ⟨⟩) after R) :
    Triple before (modify f >>= next) after R := by
  intro s hs
  rw [exec_bind, exec_modify]
  exact h s hs (f s) rfl

theorem triple_pointwise {before : σ → Prop} {program : Program σ ε α} {after : α → σ → Prop}
    {R : ε → σ → Prop} (h : ∀ s, before s → Triple (· = s) program after R) :
    Triple before program after R :=
  fun s hs => h s hs s rfl

theorem triple_tryCatch {before : σ → Prop} {program : Program σ ε α}
    {handler : ε → Program σ ε α} {after : α → σ → Prop} {C R : ε → σ → Prop}
    (body : Triple before program after C)
    (handled : ∀ error, Triple (C error) (handler error) after R) :
    Triple before (tryCatch program handler) after R := by
  intro s hs
  have outcome := body s hs
  rw [exec_tryCatch]
  generalize exec program s = result at outcome ⊢
  rcases result with ⟨error | a, s'⟩
  · exact handled error s' outcome
  · exact outcome

theorem triple_attempt {before : σ → Prop} {program : Program σ ε α}
    {after : α → σ → Prop} {C : ε → σ → Prop} {R : ε → σ → Prop}
    (body : Triple before program after C) :
    Triple before (attempt program)
      (fun result s => match result with
        | .ok a => after a s
        | .error error => C error s) R := by
  intro s hs
  have outcome := body s hs
  rw [exec_attempt]
  generalize exec program s = result at outcome ⊢
  rcases result with ⟨error | a, s'⟩
  · exact outcome
  · exact outcome

theorem triple_ensuring {before : σ → Prop} {program : Program σ ε α}
    {cleanup : Program σ ε Unit} {M after : α → σ → Prop} {C R : ε → σ → Prop}
    (body : Triple before program M C)
    (returned : ∀ a, Triple (M a) cleanup (fun _ => after a) R)
    (failed : ∀ error, Triple (C error) cleanup (fun _ => R error) R) :
    Triple before (ensuring program cleanup) after R := by
  refine triple_bind (triple_attempt body) ?_
  rintro (error | a)
  · exact triple_bind (failed error) fun _ => triple_throw fun _ h => h
  · exact triple_bind (returned a) fun _ => triple_pure fun _ h => h

theorem triple_ite {condition : Bool} {before : σ → Prop} {program other : Program σ ε α}
    {after : α → σ → Prop} {R : ε → σ → Prop}
    (whenTrue : condition = true → Triple before program after R)
    (whenFalse : condition = false → Triple before other after R) :
    Triple before (if condition then program else other) after R := by
  cases condition with
  | true => exact whenTrue rfl
  | false => exact whenFalse rfl

/-- A loop over a list, with an invariant over the part already done and the part to do. -/
theorem triple_forM {body : α → Program σ ε PUnit} (invariant : List α → List α → σ → Prop)
    {R : ε → σ → Prop} (items : List α)
    (step : ∀ done item rest, items = done ++ item :: rest →
      Triple (invariant done (item :: rest)) (body item)
        (fun _ => invariant (done ++ [item]) rest) R) :
    Triple (invariant [] items) (items.forM body) (fun _ => invariant items []) R := by
  suffices h : ∀ rest done, items = done ++ rest →
      Triple (invariant done rest) (rest.forM body) (fun _ => invariant items []) R from
    h items [] rfl
  intro rest
  induction rest with
  | nil =>
    intro done split s hs
    rw [List.append_nil] at split
    subst split
    exact hs
  | cons item rest ih =>
    intro done split
    refine triple_bind (step done item rest split) fun _ => ih (done ++ [item]) ?_
    rw [split, List.append_assoc, List.singleton_append]

theorem triple_raising {value : Except ε α} {before : σ → Prop} {after : α → σ → Prop}
    {R : ε → σ → Prop} (returned : ∀ a s, value = .ok a → before s → after a s)
    (failed : ∀ error s, value = .error error → before s → R error s) :
    Triple before (raising value) after R := by
  intro s hs
  rw [exec_raising]
  cases value with
  | ok a => exact returned a s rfl hs
  | error error => exact failed error s rfl hs

/-- A loop over a list that collects what its rounds return. -/
theorem triple_mapM {body : α → Program σ ε β} {invariant : σ → Prop} {made : α → β → Prop}
    {R : ε → σ → Prop} {items : List α}
    (step : ∀ item ∈ items,
      Triple invariant (body item) (fun b s => invariant s ∧ made item b) R) :
    Triple invariant (items.mapM body)
      (fun results s => invariant s ∧ List.Forall₂ made items results) R := by
  induction items with
  | nil => exact triple_pure fun s hs => ⟨hs, .nil⟩
  | cons item items ih =>
    obtain ⟨first, later⟩ := List.forall_mem_cons.mp step
    rw [List.mapM_cons]
    refine triple_bind first fun b => triple_pointwise fun s hs => ?_
    refine triple_bind (triple_consequence (ih later) (by rintro _ rfl; exact hs.1)
      (fun _ _ h => h) (fun _ _ h => h)) fun rest => triple_pure fun s' hs' => ?_
    exact ⟨hs'.1, .cons hs.2 hs'.2⟩

/-- Every run of the program goes along the relation, whether it returns or raises. -/
def Advances (R : σ → σ → Prop) (program : Program σ ε α) : Prop :=
  ∀ s, R s (exec program s).2

section
variable {R : σ → σ → Prop}

theorem advances_pure (refl : ∀ s, R s s) (a : α) : Advances R (pure a : Program σ ε α) := refl

theorem advances_throw (refl : ∀ s, R s s) (error : ε) :
    Advances R (throw error : Program σ ε α) := refl

theorem advances_get (refl : ∀ s, R s s) : Advances R (get : Program σ ε σ) := refl

theorem advances_raising (refl : ∀ s, R s s) (value : Except ε α) : Advances R (raising value) :=
  refl

theorem advances_bind (trans : ∀ s t u, R s t → R t u → R s u) {program : Program σ ε α}
    {next : α → Program σ ε β} (first : Advances R program) (second : ∀ a, Advances R (next a)) :
    Advances R (program >>= next) := by
  intro s
  have before := first s
  rw [exec_bind]
  generalize exec program s = result at before ⊢
  rcases result with ⟨error | a, t⟩
  · exact before
  · exact trans _ _ _ before (second a t)

theorem advances_ite {condition : Prop} [Decidable condition] {program other : Program σ ε α}
    (whenTrue : Advances R program) (whenFalse : Advances R other) :
    Advances R (if condition then program else other) := by
  split_ifs
  · exact whenTrue
  · exact whenFalse

theorem advances_mapM (refl : ∀ s, R s s) (trans : ∀ s t u, R s t → R t u → R s u)
    {body : α → Program σ ε β} (step : ∀ a, Advances R (body a)) (items : List α) :
    Advances R (items.mapM body) := by
  induction items with
  | nil => exact refl
  | cons item items ih =>
    rw [List.mapM_cons]
    refine advances_bind trans (step item) fun first => ?_
    exact advances_bind trans ih fun rest => advances_pure refl _

/-- What each round of a loop makes is still there at its end, if later rounds keep it. -/
theorem forall₂_of_exec_mapM {body : α → Program σ ε β} {made : σ → α → β → Prop}
    (refl : ∀ s, R s s) (trans : ∀ s t u, R s t → R t u → R s u)
    (step : ∀ a, Advances R (body a))
    (makes : ∀ {a s b t}, exec (body a) s = (.ok b, t) → made t a b)
    (keeps : ∀ {s t}, R s t → ∀ {a b}, made s a b → made t a b) {items : List α}
    {results : List β} {s s' : σ} (h : exec (items.mapM body) s = (.ok results, s')) :
    List.Forall₂ (made s') items results := by
  induction items generalizing results s with
  | nil =>
    cases h
    exact .nil
  | cons item items ih =>
    rw [List.mapM_cons] at h
    obtain ⟨first, t, ran, h⟩ := exec_bind_ok h
    obtain ⟨rest, u, later, h⟩ := exec_bind_ok h
    cases h
    have advanced : R t s' := by
      have advances := advances_mapM refl trans step items t
      rwa [later] at advances
    exact .cons (keeps advanced (makes ran)) (ih later)

end

end RoboAgent.FalliblePrograms
