import AttowNexus.Library.Graph.PostOrder

/-! # The first hit of a depth-first listing

A post-order listing meets a vertex only after everything reached from it. So the first vertex of a given kind that
it meets lies under the leftmost vertex of the kind: the one found by going on, at each vertex, to the first
successor from which the kind is reached.
-/

namespace SuccGraph

variable {α : Type*} {next : α → List α} {p : α → Prop}

/-- From the first vertex, the second is the first of the kind on the leftmost way to it. -/
inductive LeftmostHit (next : α → List α) (p : α → Prop) : α → α → Prop
  | here {x : α} : p x → LeftmostHit next p x x
  | onward {x y hit : α} {before after : List α} : ¬ p x → next x = before ++ y :: after →
      (∀ z ∈ before, ∀ w, Reach next z w → ¬ p w) → LeftmostHit next p y hit → LeftmostHit next p x hit

namespace LeftmostHit

theorem sound {x hit : α} (leftmost : LeftmostHit next p x hit) : Reach next x hit ∧ p hit := by
  induction leftmost with
  | here holds => exact ⟨.refl _, holds⟩
  | onward _ successors _ _ ih => exact ⟨.head (successors ▸ List.mem_append_right _ List.mem_cons_self) ih.1, ih.2⟩

/-- A vertex of a causal listing that reaches the kind has a leftmost way to it. -/
theorem exists_of_reach {listed : List α} (first : ParentsFirst id next listed) {x : α} (member : x ∈ listed)
    (reaches : ∃ w, Reach next x w ∧ p w) : ∃ hit, LeftmostHit next p x hit := by
  classical
  induction listed using List.reverseRecOn generalizing x with
  | nil => exact absurd member List.not_mem_nil
  | append_singleton listed last ih =>
    obtain ⟨earlier, ready⟩ := ParentsFirst.snoc_iff.1 first
    rcases List.mem_append.mp member with old | new
    · exact ih earlier old reaches
    obtain rfl := List.mem_singleton.mp new
    by_cases holds : p x
    · exact ⟨x, .here holds⟩
    have some_ : ∃ y, (next x).find? (fun z => ∃ w, Reach next z w ∧ p w) = some y := by
      obtain ⟨w, path, hit⟩ := reaches
      rcases path.eq_or_head with rfl | ⟨y, edge, rest⟩
      · exact absurd hit holds
      · exact Option.isSome_iff_exists.mp (List.find?_isSome.mpr ⟨y, edge, decide_eq_true ⟨w, rest, hit⟩⟩)
    obtain ⟨y, found⟩ := some_
    obtain ⟨shares, before, after, successors, none_⟩ := List.find?_eq_some_iff_append.mp found
    have edge : y ∈ next x := successors ▸ List.mem_append_right _ List.mem_cons_self
    obtain ⟨hit, leftmost⟩ := ih earlier (List.map_id listed ▸ ready y edge) (of_decide_eq_true shares)
    refine ⟨hit, .onward holds successors (fun z early w path found => ?_) leftmost⟩
    have silent := none_ z early
    rw [Bool.not_eq_true', decide_eq_false_iff_not] at silent
    exact silent ⟨w, path, found⟩

end LeftmostHit

section Find

variable [DecidableEq α] [DecidablePred p] {support : Finset α} (outside : ∀ x ∉ support, next x = [])
include outside

omit [DecidablePred p] in
/-- After a visit everything reached from its start is listed. -/
theorem mem_of_visited (acyclic : Acyclic next) {fuel : ℕ} {x z : α} {start : Finset α × List α}
    (enough : (support \ start.1).card < fuel) (apart : Apart next start x) (first : ParentsFirst id next start.2)
    (path : Reach next x z) : z ∈ (postOrder next fuel x start).2 := by
  obtain ⟨⟨added, grows, _⟩, marked, order⟩ := postOrder_visited outside x start enough
  have listed : x ∈ (postOrder next fuel x start).2 := by
    by_contra unlisted
    exact grows.apart apart x (marked x List.mem_cons_self) unlisted (.refl x)
  have first' := order acyclic (fun y only => List.mem_singleton.mp only ▸ apart) first
  exact path.mem_of_closed {w | w ∈ (postOrder next fuel x start).2}
    (fun w member y edge => List.map_id (postOrder next fuel x start).2 ▸ first'.mem_of_mem member edge) listed

/-- What a visit meets first is reached from the leftmost hit. -/
theorem LeftmostHit.reach_find {x hit found : α} (leftmost : LeftmostHit next p x hit) (acyclic : Acyclic next)
    {fuel : ℕ} {start : Finset α × List α} (enough : (support \ start.1).card < fuel) (apart : Apart next start x)
    (first : ParentsFirst id next start.2) (clean : ∀ z ∈ start.2, ¬ p z)
    (finds : (postOrder next fuel x start).2.find? p = some found) : Reach next hit found := by
  induction leftmost generalizing fuel start with
  | here holds =>
    rename_i x
    obtain ⟨⟨added, grows, sound⟩, _, _⟩ := postOrder_visited outside x start enough
    have member := List.mem_of_find?_eq_some finds
    have holds' := List.find?_some finds
    rw [decide_eq_true_eq] at holds'
    rw [grows.listed] at member
    rcases List.mem_append.mp member with old | new
    · exact absurd holds' (clean found old)
    · obtain ⟨y, only, path⟩ := sound found new
      exact List.mem_singleton.mp only ▸ path
  | onward fails successors empty leftmost ih =>
    rename_i x y hit before after
    obtain ⟨seen, out⟩ := start
    obtain _ | fuel := fuel
    · omega
    have edge : y ∈ next x := successors ▸ List.mem_append_right _ List.mem_cons_self
    have unseen : x ∉ seen := by
      intro marked
      have listed : x ∈ out := by
        by_contra unlisted
        exact apart x marked unlisted (.refl x)
      have below : hit ∈ out := (Reach.head edge leftmost.sound.1).mem_of_closed {w | w ∈ out}
        (fun w member z edge => List.map_id out ▸ first.mem_of_mem member edge) listed
      exact clean hit below leftmost.sound.2
    have mono : ∀ small large : Finset α, small ⊆ large →
        (support \ small).card < fuel → (support \ large).card < fuel := fun _ _ sub =>
      lt_of_le_of_lt (Finset.card_le_card (Finset.sdiff_subset_sdiff subset_rfl sub))
    have room : (support \ insert x seen).card < fuel :=
      lt_of_lt_of_le (unseen_insert outside edge unseen) (Nat.le_of_lt_succ enough)
    have apartChild : ∀ z ∈ next x, Apart next (insert x seen, out) z := by
      intro z below g marked unlisted path
      rcases Finset.mem_insert.mp marked with rfl | old
      · exact acyclic.not_reach_of_edge below path
      · exact apart g old unlisted (.head below path)
    have isBefore : ∀ z ∈ before, z ∈ next x := fun z early => successors ▸ List.mem_append_left _ early
    -- the successors before `y` list nothing of the kind, and the visit of `y` lists some of it
    obtain ⟨⟨silent, quiet, fromBefore⟩, _, orderBefore⟩ := foldl_visited mono
      (fun z _ => postOrder_visited outside z _) before (insert x seen, out) fun _ _ => room
    generalize reached : before.foldl (fun acc z => postOrder next fuel z acc) (insert x seen, out) = middle at *
    have room' : (support \ middle.1).card < fuel := mono _ _ (fun w old => (quiet.seen w).mpr (.inl old)) room
    have apart' : Apart next middle y := quiet.apart (apartChild y edge)
    have first' : ParentsFirst id next middle.2 := orderBefore acyclic (fun z early => apartChild z (isBefore z early)) first
    have clean' : ∀ z ∈ middle.2, ¬ p z := by
      intro z member
      rw [quiet.listed] at member
      rcases List.mem_append.mp member with old | new
      · exact clean z old
      · obtain ⟨w, early, path⟩ := fromBefore z new
        exact empty w early z path
    have met : hit ∈ (postOrder next fuel y middle).2 :=
      mem_of_visited outside acyclic room' apart' first' leftmost.sound.1
    obtain ⟨found', finds'⟩ : ∃ v, (postOrder next fuel y middle).2.find? p = some v :=
      Option.isSome_iff_exists.mp (List.find?_isSome.mpr ⟨hit, met, decide_eq_true leftmost.sound.2⟩)
    have same : found' = found := by
      have room'' : (support \ (postOrder next fuel y middle).1).card < fuel := by
        obtain ⟨⟨_, grows, _⟩, _, _⟩ := postOrder_visited outside y middle room'
        exact mono _ _ (fun w old => (grows.seen w).mpr (.inl old)) room'
      obtain ⟨⟨later, grows, _⟩, _, _⟩ := foldl_visited mono (fun z _ => postOrder_visited outside z _) after
        (postOrder next fuel y middle) fun _ _ => room''
      have listed : (postOrder next (fuel + 1) x (seen, out)).2 = (postOrder next fuel y middle).2 ++ (later ++ [x]) := by
        rw [postOrder, if_neg unseen, successors, List.foldl_append, List.foldl_cons, reached]
        exact (congrArg (· ++ [x]) grows.listed).trans (List.append_assoc _ _ _)
      rw [listed, List.find?_append, finds', Option.some_or] at finds
      exact Option.some.inj finds
    exact ih room' apart' first' clean' (same ▸ finds')

end Find

end SuccGraph
