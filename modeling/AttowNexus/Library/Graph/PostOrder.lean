import AttowNexus.Library.Graph.Reach
import AttowNexus.Library.Graph.ParentsFirst
import Mathlib.Data.Finset.Card

/-! # Depth-first post-order

Each vertex is listed after the vertices visited below it, and a visited set keeps it from being
listed twice. On any finite graph the listing is the set of reachable vertices, each once; on an
acyclic one every vertex comes after all of its successors.
-/

namespace SuccGraph

variable {α : Type*} [DecidableEq α] {next : α → List α}

/-- Visit one vertex: nothing if it was seen, otherwise its successors and then the vertex itself.
The fuel bounds the depth of the recursion. -/
def postOrder (next : α → List α) : ℕ → α → Finset α × List α → Finset α × List α
  | 0, _, acc => acc
  | fuel + 1, x, (seen, out) =>
      if x ∈ seen then (seen, out)
      else
        let below := (next x).foldl (fun acc y => postOrder next fuel y acc) (insert x seen, out)
        (below.1, below.2 ++ [x])

/-- What one visit, or a sequence of visits, adds to the visited set and the listing. -/
structure Grows (next : α → List α) (start : Finset α × List α) (finish : Finset α × List α)
    (added : List α) : Prop where
  listed : finish.2 = start.2 ++ added
  seen : ∀ x, x ∈ finish.1 ↔ x ∈ start.1 ∨ x ∈ added
  fresh : ∀ x ∈ added, x ∉ start.1
  nodup : added.Nodup
  closed : ∀ x ∈ added, ∀ y ∈ next x, y ∈ finish.1

namespace Grows

variable {start middle finish : Finset α × List α} {first second : List α}

omit [DecidableEq α] in
theorem refl (start : Finset α × List α) : Grows next start start [] :=
  ⟨by simp, by simp, by simp, by simp, by simp⟩

omit [DecidableEq α] in
theorem trans (left : Grows next start middle first) (right : Grows next middle finish second) :
    Grows next start finish (first ++ second) where
  listed := by rw [right.listed, left.listed, List.append_assoc]
  seen x := by rw [right.seen, left.seen, List.mem_append, or_assoc]
  fresh x member := by
    rcases List.mem_append.mp member with early | late
    · exact left.fresh x early
    · exact fun old => right.fresh x late ((left.seen x).mpr (.inl old))
  nodup := by
    refine List.nodup_append.mpr ⟨left.nodup, right.nodup, fun x early y late same => ?_⟩
    exact right.fresh y late ((left.seen y).mpr (.inr (same ▸ early)))
  closed x member y edge := by
    rcases List.mem_append.mp member with early | late
    · exact (right.seen y).mpr (.inl (left.closed x early y edge))
    · exact right.closed x late y edge

end Grows

/-- The support vertices still to be visited bound the depth. -/
theorem unseen_insert {support seen : Finset α} (outside : ∀ x ∉ support, next x = []) {x y : α}
    (edge : y ∈ next x) (unseen : x ∉ seen) :
    (support \ insert x seen).card < (support \ seen).card := by
  have inside : x ∈ support := by
    by_contra away
    exact List.not_mem_nil (outside x away ▸ edge)
  apply Finset.card_lt_card
  refine Finset.ssubset_iff_subset_ne.mpr ⟨fun z member => ?_, fun same => ?_⟩
  · have parts := Finset.mem_sdiff.mp member
    exact Finset.mem_sdiff.mpr ⟨parts.1, fun old => parts.2 (Finset.mem_insert_of_mem old)⟩
  · have member : x ∈ support \ insert x seen := same ▸ Finset.mem_sdiff.mpr ⟨inside, unseen⟩
    exact (Finset.mem_sdiff.mp member).2 (Finset.mem_insert_self _ _)

/-- No visited vertex that is still unlisted, hence on the recursion stack, is reachable from `x`. -/
def Apart (next : α → List α) (start : Finset α × List α) (x : α) : Prop :=
  ∀ g ∈ start.1, g ∉ start.2 → ¬ Reach next x g

omit [DecidableEq α] in
/-- A visit lists everything it marks, so the vertices on the stack stay the same. -/
theorem Grows.apart {start finish : Finset α × List α} {added : List α} {x : α}
    (grows : Grows next start finish added) (apart : Apart next start x) : Apart next finish x := by
  intro g marked unlisted
  rw [grows.listed, List.mem_append, not_or] at unlisted
  rcases (grows.seen g).mp marked with old | new
  · exact apart g old unlisted.1
  · exact absurd new unlisted.2

/-- What visiting the sources, one after the other, guarantees. -/
structure Visited (next : α → List α) (sources : List α) (start finish : Finset α × List α) : Prop where
  grows : ∃ added, Grows next start finish added ∧ ∀ z ∈ added, ∃ y ∈ sources, Reach next y z
  marked : ∀ y ∈ sources, y ∈ finish.1
  order : Acyclic next → (∀ y ∈ sources, Apart next start y) → ParentsFirst id next start.2 →
    ParentsFirst id next finish.2

/-- Visits one after the other guarantee what each of them does. -/
theorem foldl_visited {fuel : ℕ} {bound : Finset α → Prop}
    (mono : ∀ small large : Finset α, small ⊆ large → bound small → bound large)
    (visit : ∀ y start, bound start.1 → Visited next [y] start (postOrder next fuel y start))
    (ys : List α) (start : Finset α × List α) (enough : ∀ y ∈ ys, bound start.1) :
    Visited next ys start (ys.foldl (fun acc y => postOrder next fuel y acc) start) := by
  induction ys generalizing start with
  | nil => exact ⟨⟨[], .refl start, by simp⟩, by simp, fun _ _ first => first⟩
  | cons y ys ih =>
    obtain ⟨⟨first, grows, fromHead⟩, head, orderHead⟩ := visit y start (enough y List.mem_cons_self)
    have larger : ∀ z ∈ ys, bound (postOrder next fuel y start).1 := fun z later =>
      mono _ _ (fun w old => (grows.seen w).mpr (.inl old)) (enough z (List.mem_cons_of_mem _ later))
    obtain ⟨⟨second, rest, fromTail⟩, tail, orderTail⟩ := ih (postOrder next fuel y start) larger
    refine ⟨⟨first ++ second, grows.trans rest, fun z member => ?_⟩, fun z member => ?_,
      fun acyclic apart listed => ?_⟩
    · rcases List.mem_append.mp member with early | late
      · obtain ⟨w, inside, path⟩ := fromHead z early
        exact ⟨w, List.mem_singleton.mp inside ▸ List.mem_cons_self, path⟩
      · obtain ⟨w, inside, path⟩ := fromTail z late
        exact ⟨w, List.mem_cons_of_mem _ inside, path⟩
    · rcases List.mem_cons.mp member with rfl | later
      · exact (rest.seen z).mpr (.inl (head z List.mem_cons_self))
      · exact tail z later
    · have apartHead : ∀ z ∈ [y], Apart next start z := fun z only =>
        List.mem_singleton.mp only ▸ apart y List.mem_cons_self
      exact orderTail acyclic (fun z later => grows.apart (apart z (List.mem_cons_of_mem _ later)))
        (orderHead acyclic apartHead listed)

/-- One visit with enough fuel lists new vertices, each once and all reachable from its start; in an
acyclic graph the successors of `x` are all listed when `x` itself is. -/
theorem postOrder_visited {support : Finset α} (outside : ∀ x ∉ support, next x = []) {fuel : ℕ} (x : α)
    (start : Finset α × List α) (enough : (support \ start.1).card < fuel) :
    Visited next [x] start (postOrder next fuel x start) := by
  induction fuel generalizing x start with
  | zero => omega
  | succ fuel ih =>
    obtain ⟨seen, out⟩ := start
    by_cases known : x ∈ seen
    · simp only [postOrder, if_pos known]
      exact ⟨⟨[], .refl _, by simp⟩, by simpa using known, fun _ _ first => first⟩
    have mono : ∀ small large : Finset α, small ⊆ large →
        (support \ small).card < fuel → (support \ large).card < fuel := fun _ _ sub =>
      lt_of_le_of_lt (Finset.card_le_card (Finset.sdiff_subset_sdiff subset_rfl sub))
    obtain ⟨⟨added, grows, fromChild⟩, children, order⟩ :=
      foldl_visited mono ih (next x) (insert x seen, out) fun y edge =>
        lt_of_lt_of_le (unseen_insert outside edge known) (Nat.le_of_lt_succ enough)
    simp only [postOrder, if_neg known]
    refine ⟨⟨added ++ [x], ⟨?_, fun z => ?_, fun z member => ?_, ?_, fun z member y edge => ?_⟩,
      fun z member => ?_⟩, fun z only => ?_, fun acyclic apart first => ?_⟩
    · simp only [grows.listed, List.append_assoc]
    · simp only [grows.seen, Finset.mem_insert, List.mem_append, List.mem_singleton]
      tauto
    · rcases List.mem_append.mp member with below | top
      · exact fun old => grows.fresh z below (Finset.mem_insert_of_mem old)
      · exact List.mem_singleton.mp top ▸ known
    · refine List.nodup_append.mpr ⟨grows.nodup, List.nodup_singleton x, fun z below w top same => ?_⟩
      refine grows.fresh z below ?_
      exact (same.trans (List.mem_singleton.mp top)) ▸ Finset.mem_insert_self x seen
    · rcases List.mem_append.mp member with below | top
      · exact grows.closed z below y edge
      · exact children y (List.mem_singleton.mp top ▸ edge)
    · refine ⟨x, List.mem_cons_self, ?_⟩
      rcases List.mem_append.mp member with below | top
      · obtain ⟨y, edge, path⟩ := fromChild z below
        exact .head edge path
      · rw [List.mem_singleton.mp top]
        exact .refl x
    · rw [List.mem_singleton.mp only]
      exact (grows.seen x).mpr (.inl (Finset.mem_insert_self x seen))
    · have apartChild : ∀ y ∈ next x, Apart next (insert x seen, out) y := by
        intro y edge g marked unlisted path
        rcases Finset.mem_insert.mp marked with rfl | old
        · exact acyclic.not_reach_of_edge edge path
        · exact apart x List.mem_cons_self g old unlisted (.head edge path)
      refine (order acyclic apartChild first).snoc fun y edge => ?_
      rw [List.map_id]
      by_contra unlisted
      exact grows.apart (apartChild y edge) y (children y edge) unlisted (.refl y)

section Complete

variable {support : Finset α} (outside : ∀ x ∉ support, next x = []) {fuel : ℕ}
  (enough : support.card < fuel)
include outside enough

/-- A complete traversal lists exactly the reachable vertices, each once. -/
theorem mem_postOrder_iff (x z : α) : z ∈ (postOrder next fuel x (∅, [])).2 ↔ Reach next x z := by
  obtain ⟨⟨added, grows, sound⟩, root, _⟩ := postOrder_visited outside x (∅, []) (by simpa using enough)
  have same : ∀ w, w ∈ (postOrder next fuel x (∅, [])).1 ↔ w ∈ added := fun w => by
    simpa using grows.seen w
  rw [grows.listed, List.nil_append]
  constructor
  · intro member
    obtain ⟨y, only, path⟩ := sound z member
    exact List.mem_singleton.mp only ▸ path
  · intro path
    refine path.mem_of_closed {w | w ∈ added} (fun w member y edge => ?_)
      ((same x).mp (root x List.mem_cons_self))
    exact (same y).mp (grows.closed w member y edge)

theorem postOrder_nodup (x : α) : (postOrder next fuel x (∅, [])).2.Nodup := by
  obtain ⟨⟨added, grows, _⟩, _, _⟩ := postOrder_visited outside x (∅, []) (by simpa using enough)
  rw [grows.listed, List.nil_append]
  exact grows.nodup

/-- On an acyclic graph the traversal lists every vertex after all of its successors. -/
theorem postOrder_parentsFirst (acyclic : Acyclic next) (x : α) :
    ParentsFirst id next (postOrder next fuel x (∅, [])).2 :=
  (postOrder_visited outside x (∅, []) (by simpa using enough)).order acyclic
    (fun _ _ g marked => absurd marked (Finset.notMem_empty g)) .nil

end Complete

/-- A complete traversal ends with the vertex it started from. -/
theorem getLast_postOrder (fuel : ℕ) (x : α) : (postOrder next (fuel + 1) x (∅, [])).2.getLast? = some x := by
  rw [postOrder, if_neg (Finset.notMem_empty x)]
  exact List.getLast?_concat

/-- The recursion without a bound: visits of the sources, one after the other. -/
inductive Lists (next : α → List α) : List α → Finset α × List α → Finset α × List α → Prop where
  | nil {acc} : Lists next [] acc acc
  | seen {x rest seen out finish} (known : x ∈ seen) (later : Lists next rest (seen, out) finish) :
      Lists next (x :: rest) (seen, out) finish
  | visit {x rest seen out below finish} (unseen : x ∉ seen)
      (successors : Lists next (next x) (insert x seen, out) below)
      (later : Lists next rest (below.1, below.2 ++ [x]) finish) : Lists next (x :: rest) (seen, out) finish

/-- A visit and then the visits of the other sources -/
theorem Lists.cons {x : α} {rest : List α} {start middle finish : Finset α × List α}
    (first : Lists next [x] start middle) (later : Lists next rest middle finish) :
    Lists next (x :: rest) start finish := by
  cases first with
  | seen known done =>
    cases done
    exact .seen known later
  | visit unseen successors done =>
    cases done
    exact .visit unseen successors later

/-- With fuel for the unseen vertices, the recursion ends with the listing of the bounded traversal. -/
theorem lists_postOrder {support : Finset α} (outside : ∀ x ∉ support, next x = []) {fuel : ℕ} (x : α)
    (start : Finset α × List α) (enough : (support \ start.1).card < fuel) :
    Lists next [x] start (postOrder next fuel x start) := by
  induction fuel generalizing x start with
  | zero => omega
  | succ fuel ih =>
    obtain ⟨seen, out⟩ := start
    by_cases known : x ∈ seen
    · rw [postOrder, if_pos known]
      exact .seen known .nil
    -- The visits of the successors only ever mark more vertices.
    have successors : ∀ (ys : List α) (start : Finset α × List α), (∀ y ∈ ys, (support \ start.1).card < fuel) →
        Lists next ys start (ys.foldl (fun acc y => postOrder next fuel y acc) start) := by
      intro ys
      induction ys with
      | nil => exact fun _ _ => .nil
      | cons y ys later =>
        intro start enough
        obtain ⟨⟨added, grows, _⟩, _, _⟩ := postOrder_visited outside y start (enough y List.mem_cons_self)
        refine .cons (ih y start (enough y List.mem_cons_self)) (later _ fun z member => ?_)
        refine lt_of_le_of_lt (Finset.card_le_card (Finset.sdiff_subset_sdiff subset_rfl fun w old => ?_))
          (enough z (List.mem_cons_of_mem _ member))
        exact (grows.seen w).mpr (.inl old)
    rw [postOrder, if_neg known]
    refine .visit known (successors (next x) (insert x seen, out) fun y edge => ?_) .nil
    have fewer := unseen_insert outside edge known
    rw [Nat.lt_succ_iff] at enough
    exact fewer.trans_le enough

end SuccGraph
