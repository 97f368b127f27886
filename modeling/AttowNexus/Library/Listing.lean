import Mathlib.Data.List.Nodup
import Mathlib.Data.List.Perm.Basic
import Mathlib.Data.List.TakeWhile
import Mathlib.Data.List.Sort

/-! # Listings compared up to order

Two lists without repetitions whose items expand to lists with no item in common have the same expansion
up to order exactly when they agree on the items that expand to something.
-/

namespace Listing

variable {α β : Type*} {f : α → List β} {A B : List α}

/-- Items that expand to nothing do not matter. -/
theorem flatMap_filter_ne_nil [DecidablePred fun a => f a ≠ []] (A : List α) :
    (A.filter fun a => f a ≠ []).flatMap f = A.flatMap f := by
  induction A with
  | nil => rfl
  | cons a rest ih =>
    by_cases bare : f a = []
    · rw [List.filter_cons_of_neg (by simpa using bare), ih, List.flatMap_cons, bare, List.nil_append]
    · rw [List.filter_cons_of_pos (by simpa using bare), List.flatMap_cons, List.flatMap_cons, ih]

theorem perm_flatMap_iff (nodupA : A.Nodup) (nodupB : B.Nodup)
    (disjoint : ∀ a b m, m ∈ f a → m ∈ f b → a = b) :
    (A.flatMap f).Perm (B.flatMap f) ↔ ∀ a, f a ≠ [] → (a ∈ A ↔ a ∈ B) := by
  classical
  constructor
  · intro perm a full
    obtain ⟨m, member⟩ := List.exists_mem_of_ne_nil _ full
    have moves : ∀ {C D : List α}, (∀ x, x ∈ C.flatMap f ↔ x ∈ D.flatMap f) → a ∈ C → a ∈ D := by
      intro C D same inside
      obtain ⟨b, other, again⟩ := List.mem_flatMap.mp ((same m).mp (List.mem_flatMap.mpr ⟨a, inside, member⟩))
      exact disjoint a b m member again ▸ other
    exact ⟨moves fun x => perm.mem_iff, moves fun x => perm.symm.mem_iff⟩
  · intro agree
    rw [← flatMap_filter_ne_nil A, ← flatMap_filter_ne_nil B]
    refine List.Perm.flatMap_right f ((List.perm_ext_iff_of_nodup (nodupA.filter _) (nodupB.filter _)).mpr ?_)
    intro a
    simp only [List.mem_filter, decide_eq_true_eq]
    exact and_congr_left fun full => agree a full

/-- A sublist that lacks nothing under any label is the whole list. -/
theorem eq_of_sublist_of_countP {γ : Type*} [DecidableEq γ] (label : α → γ) (sub : A.Sublist B)
    (same : ∀ c, A.countP (label · = c) = B.countP (label · = c)) : A = B := by
  induction sub with
  | slnil => rfl
  | @cons left right a sub ih =>
    have fewer := (sub.countP_le (p := (label · = label a)))
    have atLabel := same (label a)
    rw [List.countP_cons_of_pos (by simp)] at atLabel
    omega
  | @cons_cons left right a sub ih =>
    rw [ih fun c => ?_]
    have atLabel := same c
    rw [List.countP_cons, List.countP_cons] at atLabel
    omega

/-- A list is cut at the first occurrence of a member. -/
theorem takeWhile_append_dropWhile_tail [DecidableEq α] {target : α} (member : target ∈ A) :
    A.takeWhile (· ≠ target) ++ target :: (A.dropWhile (· ≠ target)).tail = A := by
  induction A with
  | nil => exact absurd member List.not_mem_nil
  | cons a rest ih =>
    by_cases here : a = target
    · simp [here]
    · have later : target ∈ rest := (List.mem_cons.mp member).resolve_left fun back => here back.symm
      rw [List.takeWhile_cons_of_pos (by simpa using here), List.dropWhile_cons_of_pos (by simpa using here),
        List.cons_append, ih later]

/-- What is below all that follows is sorted on its own. -/
theorem insertionSort_append {r : α → α → Prop} [DecidableRel r] (below : ∀ a ∈ A, ∀ b ∈ B, r a b) :
    (A ++ B).insertionSort r = A.insertionSort r ++ B.insertionSort r := by
  have insert : ∀ (a : α) (first rest : List α), (∀ b ∈ rest, r a b) →
      (first ++ rest).orderedInsert r a = first.orderedInsert r a ++ rest := by
    intro a first rest before
    induction first with
    | nil =>
      cases rest with
      | nil => rfl
      | cons b rest => simp [before b List.mem_cons_self]
    | cons c first ih =>
      by_cases here : r a c
      · simp [here]
      · simp [here, ih]
  induction A with
  | nil => rfl
  | cons a rest ih =>
    obtain ⟨here, later⟩ := List.forall_mem_cons.mp below
    rw [List.cons_append, List.insertionSort_cons, ih later, List.insertionSort_cons]
    exact insert a _ _ fun b inside => here b ((List.mem_insertionSort r).mp inside)

/-- Sorting keeps a last item that is above all others where it is. -/
theorem insertionSort_snoc {r : α → α → Prop} [DecidableRel r] {a : α} (above : ∀ b ∈ A, r b a) :
    (A ++ [a]).insertionSort r = A.insertionSort r ++ [a] :=
  insertionSort_append fun b inside _ only => List.mem_singleton.mp only ▸ above b inside

/-- Sorting keeps what is in order already. -/
theorem filter_insertionSort {r : α → α → Prop} [DecidableRel r] [Std.Total r] [IsTrans α r] {p : α → Bool}
    (ordered : (A.filter p).Pairwise r) : (A.insertionSort r).filter p = A.filter p := by
  have kept : (A.filter p).filter p = A.filter p := by simp only [List.filter_filter, Bool.and_self]
  have sub : (A.filter p).Sublist ((A.insertionSort r).filter p) :=
    kept ▸ (List.sublist_insertionSort ordered List.filter_sublist).filter p
  exact (sub.eq_of_length ((List.perm_insertionSort r A).filter p).length_eq.symm).symm

/-- A list is cut at the first separator in one way only. -/
theorem eq_of_append_separator_eq {a : α} {left left' right right' : List α} (free : a ∉ left) (free' : a ∉ left')
    (same : left ++ a :: right = left' ++ a :: right') : left = left' ∧ right = right' := by
  induction left generalizing left' with
  | nil =>
    cases left' with
    | nil => exact ⟨rfl, (List.cons.inj same).2⟩
    | cons b rest => exact absurd ((List.cons.inj same).1 ▸ List.mem_cons_self) free'
  | cons b rest ih =>
    cases left' with
    | nil => exact absurd ((List.cons.inj same).1 ▸ List.mem_cons_self) free
    | cons c rest' =>
      obtain ⟨rfl, tails⟩ := List.cons.inj same
      obtain ⟨rfl, equal⟩ := ih (fun inside => free (List.mem_cons_of_mem _ inside))
        (fun inside => free' (List.mem_cons_of_mem _ inside)) tails
      exact ⟨rfl, equal⟩

/-- A stop either stands in the first part, or the first part ends before it. -/
theorem append_cons_cases {head tail first second : List α} {stop : α} (split : head ++ stop :: tail = first ++ second) :
    (∃ more, first = head ++ stop :: more ∧ tail = more ++ second) ∨ ∃ more, head = first ++ more := by
  rcases List.append_eq_append_iff.mp split with ⟨between, rfl, reached⟩ | ⟨more, rfl, _⟩
  · cases between with
    | nil => exact .inr ⟨[], by rw [List.append_nil, List.append_nil]⟩
    | cons c more =>
      obtain ⟨rfl, rest⟩ := List.cons.inj reached
      exact .inl ⟨more, rfl, rest⟩
  · exact .inr ⟨more, rfl⟩

/-- No code is the start of another one. -/
def PrefixFree (code : α → List β) : Prop := ∀ a b x y, code a ++ x = code b ++ y → a = b ∧ x = y

/-- A coded text ends at the first stop, if no code begins with it. -/
theorem PrefixFree.eq_of_append_stop_eq {code : α → List β} (prefixFree : PrefixFree code) {stop : β}
    (starts : ∀ a x y, code a ++ x ≠ stop :: y) {text text' : List α} {x y : List β}
    (same : text.flatMap code ++ stop :: x = text'.flatMap code ++ stop :: y) : text = text' ∧ x = y := by
  induction text generalizing text' with
  | nil =>
    cases text' with
    | nil => exact ⟨rfl, (List.cons.inj same).2⟩
    | cons b rest => exact absurd (by simpa using same.symm) (starts b _ _)
  | cons a rest ih =>
    cases text' with
    | nil => exact absurd (by simpa using same) (starts a _ _)
    | cons b rest' =>
      rw [List.flatMap_cons, List.flatMap_cons, List.append_assoc, List.append_assoc] at same
      obtain ⟨rfl, tails⟩ := prefixFree _ _ _ _ same
      obtain ⟨rfl, equal⟩ := ih tails
      exact ⟨rfl, equal⟩

/-- An item that was there before is no first occurrence. -/
theorem eraseDups_concat [BEq α] [LawfulBEq α] {items : List α} {a : α} :
    (items ++ [a]).eraseDups = if a ∈ items then items.eraseDups else items.eraseDups ++ [a] := by
  rw [List.eraseDups_append, List.removeAll, List.filter_cons, List.filter_nil]
  by_cases known : a ∈ items
  · rw [if_pos known, List.elem_eq_true_of_mem known]
    exact List.append_nil _
  · have absent : List.elem a items = false := by simpa using known
    rw [if_neg known, absent]
    rfl

/-- Members of a list with one changed -/
theorem mem_set_cases {items : List α} {index : ℕ} {changed other : α} (member : other ∈ items.set index changed) :
    other = changed ∨ other ∈ items.eraseIdx index := by
  obtain ⟨place, bound, rfl⟩ := List.mem_iff_getElem.mp member
  rw [List.getElem_set]
  split_ifs with same
  · exact .inl rfl
  · rw [List.length_set] at bound
    exact .inr (List.mem_eraseIdx_iff_getElem.mpr ⟨place, bound, fun eq => same eq.symm, rfl⟩)

/-- What holds at every place of a longer list holds at the old places and at the new one. -/
theorem forall_split_concat_iff {P : List α → α → Prop} {listed : List α} {last : α} :
    (∀ before x after, listed ++ [last] = before ++ x :: after → P before x) ↔
      (∀ before x after, listed = before ++ x :: after → P before x) ∧ P listed last := by
  constructor
  · intro every
    refine ⟨?_, every listed last [] rfl⟩
    rintro before x after rfl
    exact every before x (after ++ [last]) (List.append_assoc _ _ _)
  · rintro ⟨old, new⟩ before x after split
    rcases List.eq_nil_or_concat after with rfl | ⟨after, y, rfl⟩
    · obtain ⟨rfl, same⟩ := List.append_inj' split rfl
      obtain rfl := List.singleton_inj.mp same
      exact new
    · have split' : listed ++ [last] = (before ++ x :: after) ++ [y] := by
        rw [split, List.concat_eq_append, List.append_assoc, List.cons_append]
      exact old before x after (List.append_inj' split' rfl).1

end Listing
