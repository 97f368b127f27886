import Mathlib.Logic.Relation

/-! # Stateful computations that may fail half-way

A computation maps a state to a result and a state. A failure stops what follows but does not undo
what was written before it, so a failed run still has an end state. The rules below take a run
apart at a bind, and lift a relation between states from the steps to the whole computation.
-/

/-- A computation on states `σ` that returns an `α` or fails with an `ε`; writes stay in both cases. -/
def Fallible (σ ε α : Type) : Type := σ → Except ε α × σ

namespace Fallible

variable {σ ε α β : Type}

instance : Monad (Fallible σ ε) where
  pure a := fun s => (.ok a, s)
  bind x f := fun s =>
    match x s with
    | (.ok a, t) => f a t
    | (.error e, t) => (.error e, t)

/-- Stop with an error. -/
def fail (e : ε) : Fallible σ ε α := fun s => (.error e, s)

/-- Read the state. -/
def get : Fallible σ ε σ := fun s => (.ok s, s)

/-- Write the state. -/
def modify (f : σ → σ) : Fallible σ ε Unit := fun s => (.ok (), f s)

/-- Continue only if the condition holds. -/
def ensure (p : Prop) [Decidable p] (e : ε) : Fallible σ ε Unit := if p then pure () else fail e

/-- A computation that may fail but does not touch the state. -/
def lift (x : Except ε α) : Fallible σ ε α := fun s => (x, s)

/-- Run a computation on a component of the state. -/
def zoom {τ : Type} (read : σ → τ) (write : τ → σ → σ) (x : Fallible τ ε α) : Fallible σ ε α :=
  fun s => ((x (read s)).1, write (x (read s)).2 s)

/-- Run a body, and a handler where it fails; the error is passed on, unless the handler fails itself. -/
def reraising (body : Fallible σ ε α) (handler : ε → Fallible σ ε β) : Fallible σ ε α := fun s =>
  match body s with
  | (.ok a, t) => (.ok a, t)
  | (.error raised, t) =>
      match handler raised t with
      | (.ok _, u) => (.error raised, u)
      | (.error other, u) => (.error other, u)

section Outcomes

variable {s t : σ} {a b : α} {e e' : ε}

@[simp] theorem pure_eq_iff {r : Except ε α} :
    (pure a : Fallible σ ε α) s = (r, t) ↔ r = .ok a ∧ t = s := by
  constructor
  · intro run
    cases run
    exact ⟨rfl, rfl⟩
  · rintro ⟨rfl, rfl⟩
    rfl

@[simp] theorem fail_eq_iff {r : Except ε α} :
    (fail e : Fallible σ ε α) s = (r, t) ↔ r = .error e ∧ t = s := by
  constructor
  · intro run
    cases run
    exact ⟨rfl, rfl⟩
  · rintro ⟨rfl, rfl⟩
    rfl

@[simp] theorem get_eq_iff {r : Except ε σ} :
    (get : Fallible σ ε σ) s = (r, t) ↔ r = .ok s ∧ t = s := by
  constructor
  · intro run
    cases run
    exact ⟨rfl, rfl⟩
  · rintro ⟨rfl, rfl⟩
    rfl

@[simp] theorem modify_eq_iff {f : σ → σ} {r : Except ε Unit} :
    (modify f : Fallible σ ε Unit) s = (r, t) ↔ r = .ok () ∧ t = f s := by
  constructor
  · intro run
    cases run
    exact ⟨rfl, rfl⟩
  · rintro ⟨rfl, rfl⟩
    rfl

@[simp] theorem lift_eq_iff {x r : Except ε α} :
    (lift x : Fallible σ ε α) s = (r, t) ↔ r = x ∧ t = s := by
  constructor
  · intro run
    cases run
    exact ⟨rfl, rfl⟩
  · rintro ⟨rfl, rfl⟩
    rfl

@[simp] theorem zoom_eq_iff {τ : Type} {read : σ → τ} {write : τ → σ → σ} {x : Fallible τ ε α}
    {r : Except ε α} : zoom read write x s = (r, t) ↔ ∃ m, x (read s) = (r, m) ∧ t = write m s := by
  constructor
  · intro run
    cases run
    exact ⟨_, rfl, rfl⟩
  · rintro ⟨m, run, rfl⟩
    rw [zoom, run]

@[simp] theorem ensure_eq_iff {p : Prop} [Decidable p] {r : Except ε Unit} :
    (ensure p e : Fallible σ ε Unit) s = (r, t) ↔
      r = (if p then .ok () else .error e) ∧ t = s := by
  by_cases holds : p <;> simp [ensure, holds]

/-- A sequence succeeds when the first part does and the rest succeeds from there. -/
theorem bind_eq_ok_iff {x : Fallible σ ε α} {f : α → Fallible σ ε β} {b : β} :
    (x >>= f) s = (.ok b, t) ↔ ∃ a m, x s = (.ok a, m) ∧ f a m = (.ok b, t) := by
  change (match x s with | (.ok a, m) => f a m | (.error e, m) => (.error e, m)) = _ ↔ _
  rcases x s with ⟨_ | a, m⟩
  · simp
  · simp only [Prod.mk.injEq, Except.ok.injEq]
    exact ⟨fun rest => ⟨a, m, ⟨rfl, rfl⟩, rest⟩, fun ⟨_, _, ⟨same, place⟩, rest⟩ => same ▸ place ▸ rest⟩

/-- A sequence fails in its first part or, after that succeeded, in the rest. -/
theorem bind_eq_error_iff {x : Fallible σ ε α} {f : α → Fallible σ ε β} :
    (x >>= f) s = (.error e, t) ↔
      x s = (.error e, t) ∨ ∃ a m, x s = (.ok a, m) ∧ f a m = (.error e, t) := by
  change (match x s with | (.ok a, m) => f a m | (.error e, m) => (.error e, m)) = _ ↔ _
  rcases x s with ⟨_ | a, m⟩
  · simp
  · simp only [Prod.mk.injEq, Except.ok.injEq, reduceCtorEq, false_and, false_or]
    exact ⟨fun rest => ⟨a, m, ⟨rfl, rfl⟩, rest⟩, fun ⟨_, _, ⟨same, place⟩, rest⟩ => same ▸ place ▸ rest⟩

/-- A sequence ends in its first part, or in the rest after that. -/
theorem bind_cases {x : Fallible σ ε α} {f : α → Fallible σ ε β} {r : Except ε β} (run : (x >>= f) s = (r, t)) :
    (∃ e, x s = (.error e, t) ∧ r = .error e) ∨ ∃ a m, x s = (.ok a, m) ∧ f a m = (r, t) := by
  cases r with
  | error e =>
    rcases bind_eq_error_iff.1 run with early | late
    · exact .inl ⟨e, early, rfl⟩
    · exact .inr late
  | ok b => exact .inr (bind_eq_ok_iff.1 run)

/-- Running the rest from where the first part ended. -/
theorem bind_of_ok {x : Fallible σ ε α} {f : α → Fallible σ ε β} {m : σ} (run : x s = (.ok a, m)) :
    (x >>= f) s = f a m := by
  change (match x s with | (.ok a, m) => f a m | (.error e, m) => (.error e, m)) = _
  rw [run]

theorem bind_of_error {x : Fallible σ ε α} {f : α → Fallible σ ε β} {m : σ}
    (run : x s = (.error e, m)) : (x >>= f) s = (.error e, m) := by
  change (match x s with | (.ok a, m) => f a m | (.error e, m) => (.error e, m)) = _
  rw [run]

theorem bind_assoc {γ : Type} (x : Fallible σ ε α) (f : α → Fallible σ ε β) (g : β → Fallible σ ε γ) :
    (x >>= f) >>= g = x >>= fun a => f a >>= g := by
  funext s
  rcases outcome : x s with ⟨e | a, m⟩
  · rw [bind_of_error outcome, bind_of_error (bind_of_error outcome)]
  · rw [bind_of_ok outcome]
    change (match (x >>= f) s with | (.ok b, t) => g b t | (.error e, t) => (.error e, t)) = _
    rw [bind_of_ok outcome]
    rfl

/-- What is known to succeed is passed on. -/
theorem lift_ok_bind (a : α) (f : α → Fallible σ ε β) : lift (.ok a) >>= f = f a := rfl

/-- Wrapping the result keeps the run. -/
theorem map_eq_iff {x : Fallible σ ε α} {wrap : α → β} {r : Except ε β} :
    (do let a ← x; pure (wrap a)) s = (r, t) ↔ ∃ q, x s = (q, t) ∧ r = q.map wrap := by
  rcases outcome : x s with ⟨_ | a, m⟩
  · rw [bind_of_error outcome]
    constructor
    · rintro ⟨⟩
      exact ⟨_, rfl, rfl⟩
    · rintro ⟨_, ⟨⟩, rfl⟩
      rfl
  · rw [bind_of_ok outcome, pure_eq_iff]
    constructor
    · rintro ⟨rfl, rfl⟩
      exact ⟨_, rfl, rfl⟩
    · rintro ⟨_, ⟨⟩, rfl⟩
      exact ⟨rfl, rfl⟩

/-- A run whose success was computed. -/
theorem exists_ok {x : Fallible σ ε α} (ok : (x s).1.isOk = true) : ∃ a, x s = (.ok a, (x s).2) := by
  rcases outcome : x s with ⟨_ | a, m⟩
  · simp [outcome, Except.isOk, Except.toBool] at ok
  · exact ⟨a, rfl⟩

/-- A run whose success was computed together with a value of the result. -/
theorem exists_ok_of_map {x : Fallible σ ε α} {read : α → β} {b : β}
    (computed : (x s).1.toOption.map read = some b) : ∃ a, x s = (.ok a, (x s).2) ∧ read a = b := by
  rcases outcome : x s with ⟨_ | a, m⟩
  · simp [outcome, Except.toOption] at computed
  · rw [outcome] at computed
    exact ⟨a, rfl, Option.some.inj computed⟩

/-- A run that ends well -/
def Succeeds (x : Fallible σ ε α) (s : σ) : Prop := ∃ a t, x s = (.ok a, t)

theorem not_succeeds_iff {x : Fallible σ ε α} : ¬ Succeeds x s ↔ ∃ e t, x s = (.error e, t) := by
  rcases outcome : x s with ⟨e | a, t⟩
  · refine iff_of_true ?_ ⟨e, t, rfl⟩
    rintro ⟨_, _, run⟩
    exact absurd (Prod.mk.inj (outcome.symm.trans run)).1 nofun
  · refine iff_of_false (not_not_intro ⟨a, t, outcome⟩) ?_
    rintro ⟨_, _, run⟩
    exact absurd (Prod.mk.inj run).1 nofun

theorem succeeds_bind_iff {x : Fallible σ ε α} {f : α → Fallible σ ε β} :
    Succeeds (x >>= f) s ↔ ∃ a m, x s = (.ok a, m) ∧ Succeeds (f a) m := by
  constructor
  · rintro ⟨b, t, run⟩
    obtain ⟨a, m, first, rest⟩ := bind_eq_ok_iff.1 run
    exact ⟨a, m, first, b, t, rest⟩
  · rintro ⟨a, m, first, b, t, rest⟩
    exact ⟨b, t, bind_eq_ok_iff.2 ⟨a, m, first, rest⟩⟩

theorem succeeds_pure (a : α) : Succeeds (pure a : Fallible σ ε α) s := ⟨a, s, rfl⟩

end Outcomes

/-- Whatever the outcome, the end state is related to the start state. -/
def Keeps (R : σ → σ → Prop) (x : Fallible σ ε α) : Prop := ∀ s, R s (x s).2

namespace Keeps

variable {R : σ → σ → Prop} (refl : ∀ s, R s s) (trans : ∀ s t u, R s t → R t u → R s u)

include refl in
theorem pure (a : α) : Keeps R (Pure.pure a : Fallible σ ε α) := fun s => refl s

include refl in
theorem fail (e : ε) : Keeps R (Fallible.fail e : Fallible σ ε α) :=
  fun s => refl s

include refl in
theorem get : Keeps R (Fallible.get : Fallible σ ε σ) := fun s => refl s

include refl in
theorem lift (x : Except ε α) : Keeps R (Fallible.lift x : Fallible σ ε α) :=
  fun s => refl s

include refl in
theorem ensure (p : Prop) [Decidable p] (e : ε) :
    Keeps R (Fallible.ensure p e : Fallible σ ε Unit) := by
  intro s
  by_cases holds : p
  · rw [Fallible.ensure, if_pos holds]
    exact refl s
  · rw [Fallible.ensure, if_neg holds]
    exact refl s

theorem modify {f : σ → σ} (step : ∀ s, R s (f s)) : Keeps R (Fallible.modify f : Fallible σ ε Unit) :=
  step

include trans in
/-- A transitive relation kept by both parts is kept by the sequence, also when it fails in between. -/
theorem bind {x : Fallible σ ε α} {f : α → Fallible σ ε β} (first : Keeps R x)
    (rest : ∀ a, Keeps R (f a)) : Keeps R (x >>= f) := by
  intro s
  have before := first s
  rcases outcome : x s with ⟨_ | a, m⟩
  · rw [bind_of_error outcome]
    rwa [outcome] at before
  · rw [bind_of_ok outcome]
    rw [outcome] at before
    exact trans _ _ _ before (rest a m)

theorem ite {p : Prop} [Decidable p] {x y : Fallible σ ε α} (yes : Keeps R x) (no : Keeps R y) :
    Keeps R (if p then x else y) := by
  split
  · exact yes
  · exact no

end Keeps

/-- Wherever it fails, the error satisfies the predicate. -/
def Raises (P : ε → Prop) (x : Fallible σ ε α) : Prop := ∀ s e t, x s = (.error e, t) → P e

namespace Raises

variable {P : ε → Prop}

theorem pure (a : α) : Raises P (Pure.pure a : Fallible σ ε α) := by
  intro s e t run
  exact absurd (pure_eq_iff.1 run).1 nofun

theorem get : Raises P (Fallible.get : Fallible σ ε σ) := by
  intro s e t run
  exact absurd (get_eq_iff.1 run).1 nofun

theorem modify (f : σ → σ) : Raises P (Fallible.modify f : Fallible σ ε Unit) := by
  intro s e t run
  exact absurd (modify_eq_iff.1 run).1 nofun

theorem lift {x : Except ε α} (refuses : ∀ e, x = .error e → P e) : Raises P (Fallible.lift x : Fallible σ ε α) := by
  intro s e t run
  exact refuses e (lift_eq_iff.1 run).1.symm

theorem ensure (p : Prop) [Decidable p] {e : ε} (raised : P e) :
    Raises P (Fallible.ensure p e : Fallible σ ε Unit) := by
  intro s other t run
  have outcome := (ensure_eq_iff.1 run).1
  split at outcome
  · exact absurd outcome nofun
  · exact Except.error.inj outcome ▸ raised

theorem ensure_of {p : Prop} [Decidable p] {e : ε} (holds : p) :
    Raises P (Fallible.ensure p e : Fallible σ ε Unit) := by
  rw [Fallible.ensure, if_pos holds]
  exact pure ()

theorem bind {x : Fallible σ ε α} {f : α → Fallible σ ε β} (first : Raises P x)
    (rest : ∀ a, Raises P (f a)) : Raises P (x >>= f) := by
  intro s e t run
  rcases bind_eq_error_iff.1 run with early | ⟨a, m, _, late⟩
  · exact first s e t early
  · exact rest a m e t late

theorem ite {p : Prop} [Decidable p] {x y : Fallible σ ε α} (yes : Raises P x) (no : Raises P y) :
    Raises P (if p then x else y) := by
  split
  · exact yes
  · exact no

theorem zoom {τ : Type} {read : σ → τ} {write : τ → σ → σ} {x : Fallible τ ε α} (inner : Raises P x) :
    Raises P (Fallible.zoom read write x) := by
  intro s e t run
  obtain ⟨m, called, _⟩ := zoom_eq_iff.1 run
  exact inner _ e m called

/-- What raises nothing succeeds. -/
theorem exists_ok {x : Fallible σ ε α} (raises : Raises (fun _ => False) x) (s : σ) : ∃ a t, x s = (.ok a, t) := by
  rcases outcome : x s with ⟨e | a, t⟩
  · exact (raises s e t outcome).elim
  · exact ⟨a, t, rfl⟩

end Raises

section Reraising

variable {body : Fallible σ ε α} {handler : ε → Fallible σ ε β} {s t u : σ} {a : α} {b : β} {raised other : ε}

theorem reraising_of_ok (run : body s = (.ok a, t)) : reraising body handler s = (.ok a, t) := by
  rw [reraising, run]

theorem reraising_of_handled (run : body s = (.error raised, t)) (handled : handler raised t = (.ok b, u)) :
    reraising body handler s = (.error raised, u) := by
  rw [reraising, run]
  dsimp only
  rw [handled]

theorem reraising_of_failed (run : body s = (.error raised, t)) (failed : handler raised t = (.error other, u)) :
    reraising body handler s = (.error other, u) := by
  rw [reraising, run]
  dsimp only
  rw [failed]

/-- Whatever the handler comes to, its state is the last. -/
theorem snd_reraising_of_error (run : body s = (.error raised, t)) :
    (reraising body handler s).2 = (handler raised t).2 := by
  rw [reraising, run]
  dsimp only
  rcases handler raised t with ⟨other | b, u⟩ <;> rfl

theorem Keeps.reraising {R : σ → σ → Prop} (trans : ∀ s t u, R s t → R t u → R s u) (keeps : Keeps R body)
    (handles : ∀ raised, Keeps R (handler raised)) : Keeps R (reraising body handler) := by
  intro s
  have before := keeps s
  rcases ran : body s with ⟨raised | a, m⟩ <;> rw [ran] at before
  · have after := handles raised m
    rcases handled : handler raised m with ⟨other | b, u⟩ <;> rw [handled] at after
    · rw [reraising_of_failed ran handled]
      exact trans _ _ _ before after
    · rw [reraising_of_handled ran handled]
      exact trans _ _ _ before after
  · rw [reraising_of_ok ran]
    exact before

/-- The handler starts where the body failed. -/
theorem reraising_cases {outcome : Except ε α} (run : reraising body handler s = (outcome, t)) :
    (∃ a, body s = (.ok a, t) ∧ outcome = .ok a) ∨
      ∃ raised m, body s = (.error raised, m) ∧ t = (handler raised m).2 ∧ ∃ final, outcome = .error final := by
  rcases ran : body s with ⟨raised | a, m⟩
  · rcases handled : handler raised m with ⟨other | b, u⟩
    · rw [reraising_of_failed ran handled] at run
      obtain ⟨rfl, rfl⟩ := Prod.mk.inj run
      exact .inr ⟨raised, m, rfl, handled ▸ rfl, other, rfl⟩
    · rw [reraising_of_handled ran handled] at run
      obtain ⟨rfl, rfl⟩ := Prod.mk.inj run
      exact .inr ⟨raised, m, rfl, handled ▸ rfl, raised, rfl⟩
  · rw [reraising_of_ok ran] at run
    obtain ⟨rfl, rfl⟩ := Prod.mk.inj run
    exact .inl ⟨a, rfl, rfl⟩

end Reraising

end Fallible
