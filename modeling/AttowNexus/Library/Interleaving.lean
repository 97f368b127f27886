import AttowNexus.Library.Fallible
import AttowNexus.Library.Run
import Mathlib.Algebra.BigOperators.Group.List.Lemmas
import Mathlib.Data.Set.Basic

/-! # Computations that others may interrupt

A strand is a computation cut into atomic actions. A pool runs any number of them on one state: a request starts a
strand, and every step performs one action of one strand, in any order. There are two sets of rules. With the first,
every action leads to a later state, and a strand relies on what stays true from the state that it last saw. With the
second, an invariant is about the state and the sum of what all strands hold, in a commutative monoid, and each action
is verified for whatever the others hold.
-/

/-- A computation in atomic actions. What comes after an action depends on the state that the action found. -/
inductive Strand (σ ε α : Type) where
  | done (outcome : Except ε α)
  | act (next : σ → Strand σ ε α) (write : σ → σ)

namespace Strand

variable {σ ε α β : Type}

/-- The rest of a computation, once it has succeeded so far. -/
def bind : Strand σ ε α → (α → Strand σ ε β) → Strand σ ε β
  | done (.ok a), f => f a
  | done (.error e), _ => done (.error e)
  | act next write, f => act (fun s => (next s).bind f) write

instance : Monad (Strand σ ε) where
  pure a := done (.ok a)
  bind := bind

/-- A computation as one action. -/
def atomic (x : Fallible σ ε α) : Strand σ ε α := act (fun s => done (x s).1) fun s => (x s).2

/-- An outcome that needs no action. -/
def settle (outcome : Except ε α) : Strand σ ε α := done outcome

/-- Whether the computation has its outcome. -/
def ended : Strand σ ε α → Bool
  | done _ => true
  | act _ _ => false

theorem ended_iff {x : Strand σ ε α} : x.ended = true ↔ ∃ outcome, x = .done outcome := by
  cases x with
  | done outcome => exact ⟨fun _ => ⟨outcome, rfl⟩, fun _ => rfl⟩
  | act next write =>
    constructor
    · intro ended
      cases ended
    · rintro ⟨outcome, same⟩
      cases same

/-- The computation without interruption. -/
def run : Strand σ ε α → Fallible σ ε α
  | done outcome => fun s => (outcome, s)
  | act next write => fun s => (next s).run (write s)

section Run

@[simp] theorem run_pure (a : α) : (pure a : Strand σ ε α).run = pure a := rfl

@[simp] theorem run_settle (outcome : Except ε α) : (settle outcome : Strand σ ε α).run = Fallible.lift outcome := rfl

@[simp] theorem run_atomic (x : Fallible σ ε α) : (atomic x).run = x := rfl

/-- Uninterrupted, the parts of a sequence run one after the other. -/
@[simp] theorem run_bind (x : Strand σ ε α) (f : α → Strand σ ε β) :
    (x >>= f).run = x.run >>= fun a => (f a).run := by
  funext s
  induction x generalizing s with
  | done outcome =>
    cases outcome with
    | error e => rfl
    | ok a => rfl
  | act next write ih =>
    have rest := ih s (write s)
    have first : ((act next write).run >>= fun a => (f a).run) s = ((next s).run >>= fun a => (f a).run) (write s) := rfl
    rw [first, ← rest]
    rfl

end Run

section Views

variable {τ : Type} {view : σ → τ} {Inv : σ → Prop}

/-- Uninterrupted, the strand does to a view of the state what the computation does, as long as the invariant holds,
which it keeps. -/
def Mirrors (view : σ → τ) (Inv : σ → Prop) (x : Strand σ ε α) (y : Fallible τ ε α) : Prop :=
  ∀ s, Inv s → y (view s) = ((x.run s).1, view (x.run s).2) ∧ Inv (x.run s).2

namespace Mirrors

theorem pure (a : α) : Mirrors view Inv (Pure.pure a : Strand σ ε α) (Pure.pure a) := fun _ holds => ⟨rfl, holds⟩

theorem settle (outcome : Except ε α) :
    Mirrors view Inv (Strand.settle outcome : Strand σ ε α) (Fallible.lift outcome) := fun _ holds => ⟨rfl, holds⟩

theorem bind {x : Strand σ ε α} {y : Fallible τ ε α} {f : α → Strand σ ε β} {g : α → Fallible τ ε β}
    (first : Mirrors view Inv x y) (rest : ∀ a, Mirrors view Inv (f a) (g a)) :
    Mirrors view Inv (x >>= f) (y >>= g) := by
  intro s holds
  obtain ⟨here, kept⟩ := first s holds
  rw [run_bind]
  rcases outcome : x.run s with ⟨e | a, t⟩
  · rw [outcome] at here kept
    rw [Fallible.bind_of_error here, Fallible.bind_of_error outcome]
    exact ⟨rfl, kept⟩
  · rw [outcome] at here kept
    rw [Fallible.bind_of_ok here, Fallible.bind_of_ok outcome]
    exact rest a t kept

/-- What the view does not show may come before -/
theorem unseen {x : Strand σ ε Unit} {f : Unit → Strand σ ε β} {y : Fallible τ ε β}
    (hidden : Mirrors view Inv x (Pure.pure ())) (rest : Mirrors view Inv (f ()) y) : Mirrors view Inv (x >>= f) y :=
  bind (y := Pure.pure ()) (g := fun _ => y) hidden fun _ => rest

/-- and after. -/
theorem trailed {x : Strand σ ε α} {y : Fallible τ ε α} {f : α → Strand σ ε α} (first : Mirrors view Inv x y)
    (hidden : ∀ a, Mirrors view Inv (f a) (Pure.pure a)) : Mirrors view Inv (x >>= f) y := by
  intro s holds
  obtain ⟨here, kept⟩ := first s holds
  rw [run_bind]
  rcases outcome : x.run s with ⟨e | a, t⟩
  · rw [outcome] at here kept
    rw [Fallible.bind_of_error outcome]
    exact ⟨here, kept⟩
  · rw [outcome] at here kept
    rw [Fallible.bind_of_ok outcome, here]
    exact hidden a t kept

/-- A computation that starts by reading what the invariant fixes -/
theorem reads {γ : Type} (part : τ → γ) {x : Strand σ ε α} {y : γ → Fallible τ ε α}
    (each : ∀ c, Mirrors view (fun s => part (view s) = c) x (y c)) :
    Mirrors view (fun _ => True) x (Fallible.get >>= fun t => y (part t)) := fun s _ =>
  ⟨(each (part (view s)) s rfl).1, trivial⟩

end Mirrors

end Views

end Strand

section Growth

variable {σ ε α β : Type} {Inv : σ → Prop} {Later : σ → σ → Prop}

/-- A promise for the case of success -/
def OnSuccess (P : α → σ → Prop) : Except ε α → σ → Prop
  | .ok a, s => P a s
  | .error _, _ => True

/-- From the state that the strand last saw, whatever the others did since: each of its actions keeps the invariant and
leads to a later state, and it ends as promised. -/
def Strand.Grows (Inv : σ → Prop) (Later : σ → σ → Prop) (Q : Except ε α → σ → Prop) : Strand σ ε α → σ → Prop
  | .done outcome, s => Q outcome s
  | .act next write, s =>
      ∀ t, Inv t → Later s t → Inv (write t) ∧ Later t (write t) ∧ (next t).Grows Inv Later Q (write t)

namespace Strand.Grows

variable {Q Q' : Except ε α → σ → Prop} {s : σ}

theorem pure {a : α} (ends : Q (.ok a) s) : (Pure.pure a : Strand σ ε α).Grows Inv Later Q s := ends

theorem settle {outcome : Except ε α} (ends : Q outcome s) : (Strand.settle outcome : Strand σ ε α).Grows Inv Later Q s :=
  ends

theorem atomic {x : Fallible σ ε α}
    (acts : ∀ t, Inv t → Later s t → Inv (x t).2 ∧ Later t (x t).2 ∧ Q (x t).1 (x t).2) :
    (Strand.atomic x).Grows Inv Later Q s := acts

theorem mono {x : Strand σ ε α} (grows : x.Grows Inv Later Q s) (weaker : ∀ outcome t, Q outcome t → Q' outcome t) :
    x.Grows Inv Later Q' s := by
  induction x generalizing s with
  | done outcome => exact weaker _ _ grows
  | act next write ih =>
    intro t holds later
    obtain ⟨keeps, on, rest⟩ := grows t holds later
    exact ⟨keeps, on, ih t rest⟩

/-- A sequence: the rest starts in a state with what the first part promises. -/
theorem bind {x : Strand σ ε α} {f : α → Strand σ ε β} {R : Except ε β → σ → Prop} (first : x.Grows Inv Later Q s)
    (fails : ∀ e t, Q (.error e) t → R (.error e) t) (rest : ∀ a t, Q (.ok a) t → (f a).Grows Inv Later R t) :
    (x >>= f).Grows Inv Later R s := by
  induction x generalizing s with
  | done outcome =>
    cases outcome with
    | error e => exact fails e s first
    | ok a => exact rest a s first
  | act next write ih =>
    intro t holds later
    obtain ⟨keeps, on, after⟩ := first t holds later
    exact ⟨keeps, on, ih t after⟩

/-- The strand ends later than it started. -/
theorem later {x : Strand σ ε α} (trans : ∀ s t u, Later s t → Later t u → Later s u) {start : σ}
    (grows : x.Grows Inv Later Q s) (from_start : Later start s) :
    x.Grows Inv Later (fun outcome t => Q outcome t ∧ Later start t) s := by
  induction x generalizing s with
  | done outcome => exact ⟨grows, from_start⟩
  | act next write ih =>
    intro t holds on
    obtain ⟨keeps, after, rest⟩ := grows t holds on
    exact ⟨keeps, after, ih t rest (trans _ _ _ from_start (trans _ _ _ on after))⟩

end Strand.Grows

end Growth

section Holdings

variable {σ ε α β M : Type} [AddCommMonoid M] {I : σ → M → Prop}

/-- With `held` in its hands the strand keeps the invariant, whatever the others hold, and ends with an outcome and
holdings as promised. -/
def Strand.Safe (I : σ → M → Prop) (Q : Except ε α → M → Prop) : Strand σ ε α → M → Prop
  | .done outcome, held => Q outcome held
  | .act next write, held =>
      ∀ s others, I s (held + others) → ∃ kept, I (write s) (kept + others) ∧ (next s).Safe I Q kept

namespace Strand.Safe

variable {held : M} {Q : Except ε α → M → Prop}

theorem pure {a : α} (ends : Q (.ok a) held) : (Pure.pure a : Strand σ ε α).Safe I Q held := ends

theorem settle {outcome : Except ε α} (ends : Q outcome held) : (Strand.settle outcome : Strand σ ε α).Safe I Q held :=
  ends

theorem atomic {x : Fallible σ ε α}
    (keeps : ∀ s others, I s (held + others) → ∃ kept, I (x s).2 (kept + others) ∧ Q (x s).1 kept) :
    (Strand.atomic x).Safe I Q held := keeps

/-- A sequence: the rest starts with what the first part ends with. -/
theorem bind {x : Strand σ ε α} {f : α → Strand σ ε β} {R : Except ε β → M → Prop} (first : x.Safe I Q held)
    (fails : ∀ e kept, Q (.error e) kept → R (.error e) kept)
    (rest : ∀ a kept, Q (.ok a) kept → (f a).Safe I R kept) : (x >>= f).Safe I R held := by
  induction x generalizing held with
  | done outcome =>
    cases outcome with
    | error e => exact fails e held first
    | ok a => exact rest a held first
  | act next write ih =>
    intro s others holds
    obtain ⟨kept, later, safe⟩ := first s others holds
    exact ⟨kept, later, ih s safe⟩

end Strand.Safe

end Holdings

/-- Strands over one state, each with the request that started it. -/
structure Pool (ρ σ ε α : Type) where
  state : σ
  strands : List (ρ × Strand σ ε α)

namespace Pool

variable {ρ σ ε α : Type}

inductive Move (ρ : Type) where
  | start (request : ρ)
  | proceed (place : ℕ)

/-- A request comes in, or a strand performs its next action. -/
inductive Step (body : ρ → Strand σ ε α) : Pool ρ σ ε α → Move ρ → Pool ρ σ ε α → Prop
  | start {pool : Pool ρ σ ε α} (request : ρ) :
      Step body pool (.start request) ⟨pool.state, pool.strands ++ [(request, body request)]⟩
  | proceed {pool : Pool ρ σ ε α} {place : ℕ} {request : ρ} {next : σ → Strand σ ε α} {write : σ → σ}
      (found : pool.strands[place]? = some (request, .act next write)) :
      Step body pool (.proceed place)
        ⟨write pool.state, pool.strands.set place (request, next pool.state)⟩

/-- One move, by computation -/
def perform (body : ρ → Strand σ ε α) (pool : Pool ρ σ ε α) : Move ρ → Option (Pool ρ σ ε α)
  | .start request => some ⟨pool.state, pool.strands ++ [(request, body request)]⟩
  | .proceed place =>
      match pool.strands[place]? with
      | some (request, .act next write) =>
          some ⟨write pool.state, pool.strands.set place (request, next pool.state)⟩
      | _ => none

theorem step_of_perform {body : ρ → Strand σ ε α} {pool pool' : Pool ρ σ ε α} {move : Move ρ}
    (performed : pool.perform body move = some pool') : Step body pool move pool' := by
  cases move with
  | start request =>
    obtain rfl := Option.some.inj performed
    exact .start request
  | proceed place =>
    rw [perform] at performed
    split at performed
    · next found =>
      obtain rfl := Option.some.inj performed
      exact .proceed found
    · cases performed

/-- Moves that can be computed are a run. -/
theorem run_of_performs {body : ρ → Strand σ ε α} {pool pool' : Pool ρ σ ε α} {moves : List (Move ρ)}
    (performed : moves.foldlM (perform body) pool = some pool') : Run (Step body) pool moves pool' := by
  induction moves generalizing pool with
  | nil =>
    obtain rfl := Option.some.inj performed
    exact .nil
  | cons move rest ih =>
    rw [List.foldlM_cons] at performed
    obtain ⟨middle, first, later⟩ := Option.bind_eq_some_iff.mp performed
    exact .cons (step_of_perform first) (ih later)

/-- A strand that nothing interrupts -/
theorem run_of_proceeds {body : ρ → Strand σ ε α} {request : ρ} {x : Strand σ ε α} {pool : Pool ρ σ ε α} {place : ℕ}
    (found : pool.strands[place]? = some (request, x)) :
    ∃ moves, Run (Step body) pool moves
      ⟨(x.run pool.state).2, pool.strands.set place (request, .done (x.run pool.state).1)⟩ := by
  induction x generalizing pool with
  | done outcome =>
    have same : pool.strands.set place (request, .done outcome) = pool.strands := by
      obtain ⟨bound, here⟩ := List.getElem?_eq_some_iff.mp found
      rw [← here, List.set_getElem_self]
    refine ⟨[], ?_⟩
    rw [Strand.run, same]
    exact .nil
  | act next write ih =>
    obtain ⟨bound, _⟩ := List.getElem?_eq_some_iff.mp found
    have here : (pool.strands.set place (request, next pool.state))[place]? = some (request, next pool.state) :=
      List.getElem?_set_self bound
    obtain ⟨moves, rest⟩ := @ih pool.state ⟨write pool.state, _⟩ here
    rw [List.set_set] at rest
    exact ⟨_, .cons (.proceed found) rest⟩

/-- A request that is served from start to end -/
theorem run_of_uninterrupted (body : ρ → Strand σ ε α) (pool : Pool ρ σ ε α) (request : ρ) :
    ∃ moves, Run (Step body) pool moves ⟨((body request).run pool.state).2,
      pool.strands ++ [(request, .done ((body request).run pool.state).1)]⟩ := by
  have here : (pool.strands ++ [(request, body request)])[pool.strands.length]? = some (request, body request) :=
    List.getElem?_concat_length
  obtain ⟨moves, rest⟩ := @run_of_proceeds _ _ _ _ body _ _ ⟨pool.state, _⟩ _ here
  rw [List.set_append_right _ _ (Nat.le_refl _), Nat.sub_self, List.set_cons_zero] at rest
  exact ⟨_, .cons (.start request) rest⟩

/-- A state on which nothing runs. -/
def idle (state : σ) : Pool ρ σ ε α := ⟨state, []⟩

/-- Every strand has its outcome. -/
def Done (pool : Pool ρ σ ε α) : Prop := ∀ entry ∈ pool.strands, ∃ outcome, entry.2 = .done outcome

theorem done_of_all {pool : Pool ρ σ ε α} (ended : pool.strands.all (·.2.ended) = true) : pool.Done := fun entry member =>
  Strand.ended_iff.mp (List.all_eq_true.mp ended entry member)

/-- Every strand was started by a move. -/
theorem started_of_run {body : ρ → Strand σ ε α} {state : σ} {moves : List (Move ρ)} {pool : Pool ρ σ ε α}
    (run : Run (Step body) (idle state) moves pool) : ∀ entry ∈ pool.strands, .start entry.1 ∈ moves := by
  induction run with
  | nil => exact fun _ absent => absurd absent List.not_mem_nil
  | snoc _ step ih =>
    intro entry member
    cases step with
    | start request =>
      rcases List.mem_append.mp member with old | new
      · exact List.mem_append_left _ (ih entry old)
      · rw [List.mem_singleton.mp new]
        exact List.mem_append_right _ (List.mem_singleton_self _)
    | @proceed _ request next write found =>
      refine List.mem_append_left _ ?_
      rcases List.mem_or_eq_of_mem_set member with old | new
      · exact ih entry old
      · rw [new]
        exact ih (request, .act next write) (List.mem_of_getElem? found)

section Growth

variable {Inv : σ → Prop} {Later : σ → σ → Prop} {Q : ρ → Except ε α → σ → Prop} {body : ρ → Strand σ ε α}
  {pool pool' : Pool ρ σ ε α}

/-- The invariant holds, and each strand goes on from a state that the present one is later than. -/
structure Grown (Inv : σ → Prop) (Later : σ → σ → Prop) (Q : ρ → Except ε α → σ → Prop) (pool : Pool ρ σ ε α) : Prop where
  state : Inv pool.state
  strands : ∀ entry ∈ pool.strands, ∃ s, Later s pool.state ∧ entry.2.Grows Inv Later (Q entry.1) s

theorem Step.grown {move : Move ρ} (step : Step body pool move pool') (refl : ∀ s, Later s s)
    (trans : ∀ s t u, Later s t → Later t u → Later s u)
    (grows : ∀ request s, Inv s → (body request).Grows Inv Later (Q request) s) (grown : pool.Grown Inv Later Q) :
    pool'.Grown Inv Later Q ∧ Later pool.state pool'.state := by
  cases step with
  | start request =>
    refine ⟨⟨grown.state, fun entry member => ?_⟩, refl _⟩
    rcases List.mem_append.mp member with old | new
    · exact grown.strands entry old
    · rw [List.mem_singleton.mp new]
      exact ⟨pool.state, refl _, grows request _ grown.state⟩
  | @proceed place request next write found =>
    obtain ⟨s, later, going⟩ := grown.strands _ (List.mem_of_getElem? found)
    obtain ⟨keeps, on, rest⟩ := going pool.state grown.state later
    refine ⟨⟨keeps, fun entry member => ?_⟩, on⟩
    rcases List.mem_or_eq_of_mem_set member with old | new
    · obtain ⟨s, later, going⟩ := grown.strands entry old
      exact ⟨s, trans _ _ _ later on, going⟩
    · rw [new]
      exact ⟨_, refl _, rest⟩

/-- In every interleaving the invariant holds, and what a finished strand promised of a state held of an earlier one. -/
theorem grown_of_run {moves : List (Move ρ)} {start : Pool ρ σ ε α} (run : Run (Step body) start moves pool)
    (refl : ∀ s, Later s s) (trans : ∀ s t u, Later s t → Later t u → Later s u)
    (grows : ∀ request s, Inv s → (body request).Grows Inv Later (Q request) s) (init : start.Grown Inv Later Q) :
    pool.Grown Inv Later Q ∧ Later start.state pool.state := by
  induction run with
  | nil => exact ⟨init, refl _⟩
  | snoc _ step ih =>
    obtain ⟨grown, later⟩ := step.grown refl trans grows ih.1
    exact ⟨grown, trans _ _ _ ih.2 later⟩

theorem grown_idle {state : σ} (holds : Inv state) : (idle state : Pool ρ σ ε α).Grown Inv Later Q :=
  ⟨holds, fun _ absent => absurd absent List.not_mem_nil⟩

theorem Grown.of_done (grown : pool.Grown Inv Later Q) {request : ρ} {outcome : Except ε α}
    (member : (request, .done outcome) ∈ pool.strands) : ∃ s, Later s pool.state ∧ Q request outcome s :=
  grown.strands _ member

end Growth

section Holdings

variable {M : Type} [AddCommMonoid M] {I : σ → M → Prop} {Q : ρ → Except ε α → M → Prop} {body : ρ → Strand σ ε α}
  {pool pool' : Pool ρ σ ε α}

/-- Each strand holds something with which it is safe, and the invariant holds of the state and the sum of it all. -/
def Held (I : σ → M → Prop) (Q : ρ → Except ε α → M → Prop) (pool : Pool ρ σ ε α) : Prop :=
  ∃ shares : List M, List.Forall₂ (fun entry share => entry.2.Safe I (Q entry.1) share) pool.strands shares ∧
    I pool.state shares.sum

theorem held_idle {state : σ} (holds : I state 0) : (idle state : Pool ρ σ ε α).Held I Q := ⟨[], .nil, holds⟩

/-- Taking one share out of the sum -/
private theorem exists_split {P : ρ × Strand σ ε α → M → Prop} {strands : List (ρ × Strand σ ε α)} {shares : List M}
    {place : ℕ} {entry : ρ × Strand σ ε α} (each : List.Forall₂ P strands shares) (found : strands[place]? = some entry) :
    ∃ share others, P entry share ∧ shares.sum = share + others ∧ ∀ entry' kept, P entry' kept →
      ∃ shares', List.Forall₂ P (strands.set place entry') shares' ∧ shares'.sum = kept + others := by
  induction each generalizing place with
  | nil => cases found
  | @cons first share strands shares here rest ih =>
    cases place with
    | zero =>
      obtain rfl := Option.some.inj found
      refine ⟨share, shares.sum, here, List.sum_cons, fun entry' kept holds => ?_⟩
      exact ⟨kept :: shares, .cons holds rest, List.sum_cons⟩
    | succ place =>
      obtain ⟨own, others, holds, total, replace⟩ := ih found
      refine ⟨own, share + others, holds, by rw [List.sum_cons, total, add_left_comm], fun entry' kept holds' => ?_⟩
      obtain ⟨shares', each', total'⟩ := replace entry' kept holds'
      exact ⟨share :: shares', .cons here each', by rw [List.sum_cons, total', add_left_comm]⟩

theorem Step.held {move : Move ρ} (step : Step body pool move pool')
    (safe : ∀ request, move = .start request → (body request).Safe I (Q request) 0) (holds : pool.Held I Q) :
    pool'.Held I Q := by
  obtain ⟨shares, each, total⟩ := holds
  cases step with
  | start request =>
    refine ⟨shares ++ [0], ?_, ?_⟩
    · exact List.rel_append each (.cons (safe request rfl) .nil)
    · rwa [List.sum_append, List.sum_singleton, add_zero]
  | @proceed _ request next _ found =>
    obtain ⟨share, others, own, sum, replace⟩ := exists_split each found
    rw [sum] at total
    obtain ⟨kept, later, rest⟩ := own _ others total
    obtain ⟨shares', each', sum'⟩ := replace (request, next pool.state) kept rest
    exact ⟨shares', each', sum'.symm ▸ later⟩

/-- The invariant holds in every interleaving of strands that are safe on their own. -/
theorem held_of_run {moves : List (Move ρ)} {state : σ} (run : Run (Step body) (idle state) moves pool)
    (safe : ∀ request, .start request ∈ moves → (body request).Safe I (Q request) 0) (init : I state 0) :
    pool.Held I Q := by
  induction run with
  | nil => exact held_idle init
  | snoc _ step ih =>
    refine step.held (fun request started => safe request ?_) (ih fun request started => safe request ?_)
    · exact List.mem_append_right _ (List.mem_singleton.mpr started.symm)
    · exact List.mem_append_left _ started

/-- Once every strand is done, what they hold is what their outcomes promise. -/
theorem Held.of_done (held : pool.Held I Q) (done : pool.Done) :
    ∃ shares : List M, List.Forall₂ (fun entry share => ∃ outcome, entry.2 = .done outcome ∧ Q entry.1 outcome share)
      pool.strands shares ∧ I pool.state shares.sum := by
  obtain ⟨shares, each, total⟩ := held
  refine ⟨shares, ?_, total⟩
  rw [List.forall₂_iff_get] at each ⊢
  refine ⟨each.1, fun i here there => ?_⟩
  have safe := each.2 i here there
  obtain ⟨outcome, same⟩ := done _ (List.get_mem _ _)
  rw [same] at safe
  exact ⟨outcome, same, safe⟩

end Holdings

end Pool
