import Mathlib.Data.List.Sort
import Mathlib.Data.List.Basic

/-! # Listings in which parents come first

Entries carry an identity and the identities of their parents. A listing is causal when every
parent stands before its entry. Appending keeps that if the parents are present, and a stable sort
keeps it exactly when no key decreases along a parent edge.
-/

namespace SuccGraph

variable {ε κ : Type*} {ident : ε → κ} {parents : ε → List κ}

/-- Every parent of every entry is the identity of an earlier entry. -/
def ParentsFirst (ident : ε → κ) (parents : ε → List κ) (listed : List ε) : Prop :=
  ∀ before x after, listed = before ++ x :: after → ∀ p ∈ parents x, p ∈ before.map ident

namespace ParentsFirst

theorem nil : ParentsFirst ident parents [] := by
  intro before x after split
  exact absurd split (by simp)

/-- A prefix of a causal listing is causal. -/
theorem of_append {listed later : List ε} (first : ParentsFirst ident parents (listed ++ later)) :
    ParentsFirst ident parents listed := by
  rintro before x after rfl p edge
  exact first before x (after ++ later) (by simp) p edge

/-- One more entry fits at the end exactly when its parents are already listed. -/
theorem snoc_iff {listed : List ε} {x : ε} :
    ParentsFirst ident parents (listed ++ [x]) ↔
      ParentsFirst ident parents listed ∧ ∀ p ∈ parents x, p ∈ listed.map ident := by
  constructor
  · exact fun first => ⟨first.of_append, first listed x [] rfl⟩
  · rintro ⟨first, ready⟩ before z after split p edge
    rcases List.eq_nil_or_concat after with rfl | ⟨after, last, rfl⟩
    · obtain ⟨rfl, same⟩ := List.append_inj' split rfl
      simp only [List.cons.injEq, and_true] at same
      exact ready p (same ▸ edge)
    · have split' : listed ++ [x] = (before ++ z :: after) ++ [last] := by simpa using split
      exact first before z after (List.append_inj' split' rfl).1 p edge

theorem snoc {listed : List ε} (first : ParentsFirst ident parents listed) {x : ε}
    (ready : ∀ p ∈ parents x, p ∈ listed.map ident) : ParentsFirst ident parents (listed ++ [x]) :=
  snoc_iff.2 ⟨first, ready⟩

/-- The parents of a listed entry are listed. -/
theorem mem_of_mem {listed : List ε} (first : ParentsFirst ident parents listed) {x : ε}
    (member : x ∈ listed) {p : κ} (edge : p ∈ parents x) : p ∈ listed.map ident := by
  obtain ⟨before, after, rfl⟩ := List.append_of_mem member
  have early := first before x after rfl p edge
  rw [List.map_append]
  exact List.mem_append_left _ early

/-- A listing of images is causal when the listing is, with identities and parents read off the images. -/
theorem map_iff {δ : Type*} {image : δ → ε} {listed : List δ} :
    ParentsFirst ident parents (listed.map image) ↔
      ParentsFirst (ident ∘ image) (parents ∘ image) listed := by
  constructor
  · rintro first before x after rfl p edge
    rw [← List.map_map]
    exact first (before.map image) (image x) (after.map image) (by simp) p edge
  · intro first before x after split p edge
    obtain ⟨left, right, rfl, rfl, tail⟩ := List.map_eq_append_iff.mp split
    obtain ⟨z, rest, rfl, rfl, rfl⟩ := List.map_eq_cons_iff.mp tail
    rw [List.map_map]
    exact first left z rest rfl p edge

/-- Only the parents of the listed entries matter. -/
theorem congr_iff {parents' : ε → List κ} {listed : List ε} (same : ∀ x ∈ listed, parents x = parents' x) :
    ParentsFirst ident parents listed ↔ ParentsFirst ident parents' listed := by
  constructor
  · rintro first before x after rfl p edge
    exact first before x after rfl p (same x (by simp) ▸ edge)
  · rintro first before x after rfl p edge
    exact first before x after rfl p (same x (by simp) ▸ edge)

/-- Positions strictly decrease along parent edges, so a causal listing has no cycles. -/
theorem idxOf_lt [DecidableEq κ] {listed : List ε} (first : ParentsFirst ident parents listed)
    (distinct : (listed.map ident).Nodup) {x : ε} (member : x ∈ listed) {p : κ}
    (edge : p ∈ parents x) :
    (listed.map ident).idxOf p < (listed.map ident).idxOf (ident x) := by
  obtain ⟨before, after, rfl⟩ := List.append_of_mem member
  have early := first before x after rfl p edge
  rw [List.map_append, List.map_cons] at distinct ⊢
  have apart : ident x ∉ before.map ident := fun again =>
    (List.nodup_append.mp distinct).2.2 _ again _ List.mem_cons_self rfl
  rw [List.idxOf_append_of_mem early, List.idxOf_append_of_notMem apart, List.idxOf_cons_self]
  exact List.idxOf_lt_length_of_mem early

end ParentsFirst

/-- In a list without repetitions, the first of an ordered pair stands before any split at the second. -/
theorem mem_before_of_pair_sublist {before after : List ε} {x y : ε}
    (distinct : (before ++ x :: after).Nodup) (pair : [y, x].Sublist (before ++ x :: after)) :
    y ∈ before := by
  obtain ⟨notBefore, notAfter⟩ : x ∉ before ∧ x ∉ after := by
    obtain ⟨_, tail, apart⟩ := List.nodup_append.mp distinct
    exact ⟨fun early => apart x early x List.mem_cons_self rfl, (List.nodup_cons.mp tail).1⟩
  obtain ⟨left, right, split, leftSub, rightSub⟩ := List.sublist_append_iff.mp pair
  cases left with
  | nil =>
    simp only [List.nil_append] at split
    subst split
    have inAfter : x ∈ after := by
      cases rightSub with
      | cons _ sub => exact sub.subset (by simp)
      | cons_cons _ sub => exact sub.subset (by simp)
    exact absurd inAfter notAfter
  | cons z left =>
    simp only [List.cons_append, List.cons.injEq] at split
    exact split.1 ▸ leftSub.subset List.mem_cons_self

section Stable

variable {ω : Type*} [LinearOrder ω] {key : ε → ω} {listed : List ε}

private theorem ident_inj (distinct : (listed.map ident).Nodup) {x y : ε} (left : x ∈ listed)
    (right : y ∈ listed) (same : ident x = ident y) : x = y :=
  List.inj_on_of_nodup_map distinct left right same

/-- A stable sort of a causal listing is causal exactly when no parent has a larger key. -/
theorem parentsFirst_insertionSort_iff (distinct : (listed.map ident).Nodup)
    (first : ParentsFirst ident parents listed) :
    ParentsFirst ident parents (listed.insertionSort fun a b => key a ≤ key b) ↔
      ∀ x ∈ listed, ∀ y ∈ listed, ident y ∈ parents x → key y ≤ key x := by
  have perm := List.perm_insertionSort (fun a b : ε => key a ≤ key b) listed
  constructor
  · intro sorted x member y other edge
    obtain ⟨before, after, split⟩ := List.append_of_mem (perm.mem_iff.mpr member)
    obtain ⟨z, early, same⟩ := List.mem_map.mp (sorted before x after split _ edge)
    have inside : z ∈ listed := perm.mem_iff.mp (split ▸ List.mem_append_left _ early)
    obtain rfl := ident_inj distinct inside other same
    have ordered := List.pairwise_insertionSort (fun a b : ε => key a ≤ key b) listed
    rw [split] at ordered
    exact (List.pairwise_append.mp ordered).2.2 z early x List.mem_cons_self
  · intro monotone before x after split p edge
    have member : x ∈ listed := perm.mem_iff.mp (split ▸ List.mem_append_right _ List.mem_cons_self)
    obtain ⟨prior, later, atX⟩ := List.append_of_mem member
    obtain ⟨y, early, rfl⟩ := List.mem_map.mp (first prior x later atX p edge)
    have other : y ∈ listed := atX ▸ List.mem_append_left _ early
    have pair : [y, x].Sublist listed := by
      rw [atX]
      exact List.Sublist.append (List.singleton_sublist.mpr early)
        (List.singleton_sublist.mpr List.mem_cons_self)
    have kept := List.pair_sublist_insertionSort (r := fun a b : ε => key a ≤ key b)
      (monotone x member y other edge) pair
    have nodup : (before ++ x :: after).Nodup :=
      split ▸ perm.nodup_iff.mpr (List.Nodup.of_map _ distinct)
    exact List.mem_map_of_mem (mem_before_of_pair_sublist nodup (split ▸ kept))

end Stable

end SuccGraph
