import Mathlib.Data.List.Forall2
import Mathlib.Data.Option.Basic
import Mathlib.Tactic.SplitIfs

/-! # Chains of checks

A value of `Except` is a check that may refuse. A chain succeeds when every check of it does, in turn.
-/

namespace Checks

universe u

variable {ε α β : Type u} {x : Except ε α} {f : α → Except ε β} {a : α} {b : β}

theorem bind_eq_ok_iff : (x >>= f) = .ok b ↔ ∃ a, x = .ok a ∧ f a = .ok b := by
  cases x with
  | error e => exact ⟨nofun, fun ⟨_, wrong, _⟩ => absurd wrong nofun⟩
  | ok a =>
    refine ⟨fun rest => ⟨a, rfl, rest⟩, fun ⟨_, same, rest⟩ => ?_⟩
    exact Except.ok.inj same ▸ rest

theorem map_eq_ok_iff {g : α → β} : x.map g = .ok b ↔ ∃ a, x = .ok a ∧ g a = b := by
  cases x with
  | error e => exact ⟨nofun, fun ⟨_, wrong, _⟩ => absurd wrong nofun⟩
  | ok a => simp [Except.map]

theorem mapError_eq_ok_iff {ε' : Type u} {g : ε → ε'} : x.mapError g = .ok a ↔ x = .ok a := by
  cases x with
  | error e => exact ⟨nofun, nofun⟩
  | ok other => rw [Except.mapError, Except.ok.injEq, Except.ok.injEq]

theorem ite_error_eq_ok_iff {p : Prop} [Decidable p] {e : ε} :
    (if p then .error e else x) = .ok a ↔ ¬ p ∧ x = .ok a := by
  split_ifs with refused
  · exact ⟨nofun, fun passes => absurd refused passes.1⟩
  · exact ⟨fun rest => ⟨refused, rest⟩, And.right⟩

theorem exists_eq_ok (ok : x.isOk = true) : ∃ a, x = .ok a := by
  cases x with
  | error e => exact absurd ok Bool.false_ne_true
  | ok a => exact ⟨a, rfl⟩

/-- Where it refuses, the error satisfies the predicate. -/
def Refuses (P : ε → Prop) (x : Except ε α) : Prop := ∀ e, x = .error e → P e

namespace Refuses

variable {P : ε → Prop}

theorem ok (a : α) : Refuses P (.ok a) := fun _ wrong => absurd wrong nofun

theorem error {e : ε} (holds : P e) : Refuses P (.error e : Except ε α) :=
  fun _ same => Except.error.inj same ▸ holds

theorem bind (first : Refuses P x) (rest : ∀ a, Refuses P (f a)) : Refuses P (x >>= f) := by
  intro e run
  cases x with
  | error early => exact first e (Except.error.inj run ▸ rfl)
  | ok a => exact rest a e run

theorem map {g : α → β} (inner : Refuses P x) : Refuses P (x.map g) := by
  intro e run
  cases x with
  | error early => exact inner e (Except.error.inj run ▸ rfl)
  | ok a => exact absurd run nofun

theorem mapError {ε' : Type u} {g : ε' → ε} {x : Except ε' α} (each : ∀ e, P (g e)) : Refuses P (x.mapError g) := by
  intro e run
  cases x with
  | error early => exact Except.error.inj run ▸ each early
  | ok a => exact absurd run nofun

theorem ite {p : Prop} [Decidable p] {y : Except ε α} (yes : Refuses P x) (no : Refuses P y) :
    Refuses P (if p then x else y) := by
  split
  · exact yes
  · exact no

theorem forM {items : List α} {f : α → Except ε PUnit.{u + 1}} (each : ∀ a ∈ items, Refuses P (f a)) :
    Refuses P (items.forM f) := by
  induction items with
  | nil => exact ok _
  | cons a items ih =>
    rw [List.forM_eq_forM, List.forM_cons]
    exact bind (each a List.mem_cons_self) fun _ => ih fun b member => each b (List.mem_cons_of_mem a member)

theorem mapM {items : List α} (each : ∀ a ∈ items, Refuses P (f a)) : Refuses P (items.mapM f) := by
  induction items with
  | nil => exact ok _
  | cons a items ih =>
    rw [List.mapM_cons]
    refine bind (each a List.mem_cons_self) fun _ => ?_
    exact bind (ih fun b member => each b (List.mem_cons_of_mem a member)) fun _ => ok _

end Refuses

section Agreement

/-- Lists that are checked item by item have the same outcome if each pair of items has. -/
theorem forM_congr {α' : Type u} {items : List α} {others : List α'} {f : α → Except ε PUnit.{u + 1}}
    {g : α' → Except ε PUnit.{u + 1}} (each : List.Forall₂ (fun a b => f a = g b) items others) :
    items.forM f = others.forM g := by
  induction each with
  | nil => rfl
  | cons same _ ih =>
    rw [List.forM_eq_forM, List.forM_eq_forM] at ih ⊢
    rw [List.forM_cons, List.forM_cons, same, ih]

theorem forM_eq_ok_iff {items : List α} {f : α → Except ε PUnit.{u + 1}} :
    items.forM f = .ok ⟨⟩ ↔ ∀ a ∈ items, f a = .ok ⟨⟩ := by
  induction items with
  | nil => exact iff_of_true rfl nofun
  | cons a items ih =>
    rw [List.forM_eq_forM] at ih ⊢
    rw [List.forM_cons, bind_eq_ok_iff, List.forall_mem_cons]
    exact ⟨fun ⟨_, first, rest⟩ => ⟨first, ih.mp rest⟩, fun ⟨first, rest⟩ => ⟨_, first, ih.mpr rest⟩⟩

theorem isOk_mapError {ε' : Type u} {g : ε → ε'} : (x.mapError g).isOk = x.isOk := by
  cases x with
  | error e => rfl
  | ok a => rfl

theorem isOk_bind_congr {α' β' : Type u} {y : Except ε α'} {g : α' → Except ε β'} (first : x.isOk = y.isOk)
    (rest : ∀ a b, x = .ok a → y = .ok b → (f a).isOk = (g b).isOk) : (x >>= f).isOk = (y >>= g).isOk := by
  cases x <;> cases y
  · rfl
  · cases first
  · cases first
  · exact rest _ _ rfl rfl

/-- Matched lists can be cut at an item of the first. -/
theorem forall₂_split {α' β' : Type*} {R : α' → β' → Prop} {before after : List α'} {a : α'} {others : List β'}
    (each : List.Forall₂ R (before ++ a :: after) others) :
    ∃ before' b after', others = before' ++ b :: after' ∧ R a b ∧ List.Forall₂ R after after' := by
  induction before generalizing others with
  | nil =>
    obtain ⟨b, after', here, later, rfl⟩ := List.forall₂_cons_left_iff.mp each
    exact ⟨[], b, after', rfl, here, later⟩
  | cons first before ih =>
    obtain ⟨other, rest, -, later, rfl⟩ := List.forall₂_cons_left_iff.mp each
    obtain ⟨before', b, after', rfl, here, matched⟩ := ih later
    exact ⟨other :: before', b, after', rfl, here, matched⟩

theorem forall₂_mem {α' β' : Type*} {R : α' → β' → Prop} {items : List α'} {others : List β'}
    (each : List.Forall₂ R items others) {a : α'} (member : a ∈ items) : ∃ b ∈ others, R a b := by
  obtain ⟨before, after, rfl⟩ := List.append_of_mem member
  obtain ⟨before', b, after', rfl, here, -⟩ := forall₂_split each
  exact ⟨b, List.mem_append_right _ List.mem_cons_self, here⟩

/-- Calls that all succeed give one result for each item. -/
theorem mapM_eq_ok_iff {items : List α} {f : α → Except ε β} {results : List β} :
    items.mapM f = .ok results ↔ List.Forall₂ (fun a b => f a = .ok b) items results := by
  induction items generalizing results with
  | nil =>
    rw [List.forall₂_nil_left_iff]
    exact ⟨fun same => (Except.ok.inj same).symm, fun same => same ▸ rfl⟩
  | cons item rest ih =>
    rw [List.mapM_cons, bind_eq_ok_iff, List.forall₂_cons_left_iff]
    constructor
    · rintro ⟨first, here, later⟩
      obtain ⟨others, there, same⟩ := bind_eq_ok_iff.1 later
      exact ⟨first, others, here, ih.mp there, (Except.ok.inj same).symm⟩
    · rintro ⟨first, others, here, there, rfl⟩
      exact ⟨first, here, bind_eq_ok_iff.2 ⟨others, ih.mpr there, rfl⟩⟩

/-- The results of calls that all succeed are the results of the items, and the other way round. -/
theorem mem_of_mapM {items : List α} {f : α → Except ε β} {results : List β} (ok : items.mapM f = .ok results) :
    (∀ b ∈ results, ∃ a ∈ items, f a = .ok b) ∧ ∀ a ∈ items, ∃ b ∈ results, f a = .ok b := by
  have each := mapM_eq_ok_iff.1 ok
  exact ⟨fun b member => forall₂_mem (List.Forall₂.flip each) member, fun a member => forall₂_mem each member⟩

/-- Calls that all succeed give the list of their results. -/
theorem mapM_map_of_ok {γ : Type u} {items : List γ} {h : γ → α} {f : α → Except ε β} {g : γ → β}
    (each : ∀ c ∈ items, f (h c) = .ok (g c)) : (items.map h).mapM f = .ok (items.map g) := by
  induction items with
  | nil => rfl
  | cons c rest ih =>
    obtain ⟨here, later⟩ := List.forall_mem_cons.mp each
    rw [List.map_cons, List.mapM_cons, here, ih later]
    rfl

/-- Lists that are converted item by item are both converted if each pair of items is. -/
theorem isOk_mapM_congr {α' β' : Type u} {g : α' → Except ε β'} {items : List α} {others : List α'}
    (each : List.Forall₂ (fun a b => (f a).isOk = (g b).isOk) items others) :
    (items.mapM f).isOk = (others.mapM g).isOk := by
  induction each with
  | nil => rfl
  | cons same _ ih =>
    rw [List.mapM_cons, List.mapM_cons]
    exact isOk_bind_congr same fun _ _ _ _ => isOk_bind_congr ih fun _ _ _ _ => rfl

theorem isOk_map {g : α → β} : (x.map g).isOk = true ↔ x.isOk = true := by
  cases x with
  | error e => exact Iff.rfl
  | ok a => exact Iff.rfl

theorem isOk_bind_ok {g : α → β} : (x >>= fun a => .ok (g a)).isOk = x.isOk := by
  cases x with
  | error e => rfl
  | ok a => rfl

/-- A list is converted if each item is. -/
theorem isOk_mapM_iff {items : List α} {f : α → Except ε β} :
    (items.mapM f).isOk = true ↔ ∀ a ∈ items, (f a).isOk = true := by
  constructor
  · intro ok a member
    obtain ⟨results, run⟩ := exists_eq_ok ok
    obtain ⟨b, _, same⟩ := (mem_of_mapM run).2 a member
    rw [same]
    rfl
  · intro each
    induction items with
    | nil => rfl
    | cons a rest ih =>
      obtain ⟨here, later⟩ := List.forall_mem_cons.mp each
      obtain ⟨b, same⟩ := exists_eq_ok here
      obtain ⟨results, run⟩ := exists_eq_ok (ih later)
      rw [List.mapM_cons, same, run]
      rfl

end Agreement

end Checks
