import AttowNexus.Library.Regex.Replacement

/-! # A matcher that runs

The ways in which a pattern matches the start of a text, in the order of preference of a backtracking engine, and the
replacement that takes the first one wherever there is one. Every step of a repetition takes something; where its body
cannot do otherwise, the engine finds exactly the matches of the pattern.
-/

namespace Regex

variable (alphabet : Alphabet)

instance (before after : List Char) : Decidable (alphabet.Boundary before after) := inferInstanceAs (Decidable (_ ≠ _))

/-- The ways to take from the least to the most number of steps, each of which takes something. -/
def repeated (step : List Char → List Char → List (List Char × List Char)) (greedy : Bool) :
    ℕ → ℕ → Option ℕ → List Char → List Char → List (List Char × List Char)
  | 0, least, _, _, text => if least = 0 then [([], text)] else []
  | fuel + 1, least, most, before, text =>
      let stop := if least = 0 then [([], text)] else []
      let more :=
        if most = some 0 then []
        else (step before text).flatMap fun (taken, rest) =>
          if taken = [] then []
          else (repeated step greedy fuel (least - 1) (most.map Nat.pred) (before ++ taken) rest).map
            fun (later, rest) => (taken ++ later, rest)
      if greedy then more ++ stop else stop ++ more

/-- What a match may take of the text, with what it leaves. -/
def splits : Regex → Bool → List Char → List Char → List (List Char × List Char)
  | empty, _, _, text => [([], text)]
  | char c, folded, _, text =>
      match text with
      | [] => []
      | d :: rest => if sameChar folded c d then [([d], rest)] else []
  | cls members, folded, _, text =>
      match text with
      | [] => []
      | d :: rest => if alphabet.contains folded members d then [([d], rest)] else []
  | seq first second, folded, before, text =>
      (splits first folded before text).flatMap fun (taken, rest) =>
        (splits second folded (before ++ taken) rest).map fun (later, rest) => (taken ++ later, rest)
  | alt first second, folded, before, text => splits first folded before text ++ splits second folded before text
  | rep least most greedy body, folded, before, text =>
      repeated (splits body folded) greedy text.length least most before text
  | wordBoundary, _, before, text => if alphabet.Boundary before text then [([], text)] else []
  | caseInsensitive body, _, before, text => splits body true before text

def replaceFrom (regex : Regex) (marker : List Char) : ℕ → List Char → List Char → List Char
  | 0, _, text => text
  | fuel + 1, before, text =>
      match splits alphabet regex false before text with
      | (taken, rest) :: _ => marker ++ replaceFrom regex marker fuel (before ++ taken) rest
      | [] =>
          match text with
          | [] => []
          | c :: rest => c :: replaceFrom regex marker fuel (before ++ [c]) rest

/-- `Regex::replace_all`, for patterns that match no empty text. -/
def replaceAll (regex : Regex) (marker text : List Char) : List Char :=
  replaceFrom alphabet regex marker text.length [] text

variable {alphabet} {regex : Regex} {folded : Bool} {before text taken rest : List Char}

section Repetition

variable {step : List Char → List Char → List (List Char × List Char)} {greedy : Bool} {fuel least : ℕ} {most : Option ℕ}
  {P : List Char → List Char → List Char → Prop}

theorem mem_repeated_succ : (taken, rest) ∈ repeated step greedy (fuel + 1) least most before text ↔
    (least = 0 ∧ taken = [] ∧ rest = text) ∨
    (most ≠ some 0 ∧ ∃ first middle later, (first, middle) ∈ step before text ∧ first ≠ [] ∧ taken = first ++ later ∧
      (later, rest) ∈ repeated step greedy fuel (least - 1) (most.map Nat.pred) (before ++ first) middle) := by
  have order : ∀ stop more : List (List Char × List Char),
      (taken, rest) ∈ (if greedy = true then more ++ stop else stop ++ more) ↔
        (taken, rest) ∈ stop ∨ (taken, rest) ∈ more := by
    intro stop more
    split_ifs
    · rw [List.mem_append, or_comm]
    · rw [List.mem_append]
  rw [repeated, order]
  refine or_congr ?_ ?_
  · split_ifs with none
    · rw [List.mem_singleton, Prod.mk.injEq, and_iff_right none]
    · exact iff_of_false List.not_mem_nil fun stop => none stop.1
  · split_ifs with none
    · exact iff_of_false List.not_mem_nil fun more => more.1 none
    · rw [and_iff_right none, List.mem_flatMap]
      constructor
      · rintro ⟨⟨first, middle⟩, stepped, later⟩
        dsimp only at later
        split_ifs at later with nothing
        · exact absurd later List.not_mem_nil
        · obtain ⟨⟨more, left⟩, inside, same⟩ := List.mem_map.mp later
          obtain ⟨rfl, rfl⟩ := Prod.mk.inj same
          exact ⟨first, middle, more, stepped, nothing, rfl, inside⟩
      · rintro ⟨first, middle, later, stepped, nonempty, rfl, inside⟩
        refine ⟨(first, middle), stepped, ?_⟩
        simp only [if_neg nonempty]
        exact List.mem_map.mpr ⟨(later, rest), inside, rfl⟩

/-- What is taken is a number of steps in the bounds. -/
theorem repeated_sound (sound : ∀ before text taken rest, (taken, rest) ∈ step before text →
      text = taken ++ rest ∧ P before taken rest)
    (member : (taken, rest) ∈ repeated step greedy fuel least most before text) :
    text = taken ++ rest ∧ ∃ n, least ≤ n ∧ (∀ bound, most = some bound → n ≤ bound) ∧ Iterated P n before taken rest := by
  have stopped : ∀ {least : ℕ} {most : Option ℕ} {before text taken rest : List Char},
      least = 0 → taken = [] → rest = text → text = taken ++ rest ∧
        ∃ n, least ≤ n ∧ (∀ bound, most = some bound → n ≤ bound) ∧ Iterated P n before taken rest := by
    rintro _ _ before text _ _ rfl rfl rfl
    exact ⟨rfl, 0, Nat.le_refl 0, fun _ _ => Nat.zero_le _, rfl⟩
  induction fuel generalizing least most before text taken with
  | zero =>
    rw [repeated] at member
    split_ifs at member with none
    · obtain ⟨rfl, rfl⟩ := Prod.mk.inj (List.mem_singleton.mp member)
      exact stopped none rfl rfl
    · exact absurd member List.not_mem_nil
  | succ fuel ih =>
    rcases mem_repeated_succ.1 member with ⟨none, rfl, rfl⟩ | ⟨some, first, middle, later, stepped, _, rfl, inside⟩
    · exact stopped none rfl rfl
    · obtain ⟨rfl, here⟩ := sound _ _ _ _ stepped
      obtain ⟨rfl, n, enough, few, there⟩ := ih inside
      refine ⟨(List.append_assoc ..).symm, n + 1, by omega, fun bound same => ?_, first, later, rfl, here, there⟩
      subst same
      have less := few bound.pred rfl
      have positive : bound ≠ 0 := fun zero => some (congrArg Option.some zero)
      rw [Nat.pred_eq_sub_one] at less
      omega

/-- Every number of steps in the bounds is found, with fuel for each of them. -/
theorem repeated_complete {n : ℕ} (complete : ∀ before taken rest, P before taken rest →
      taken ≠ [] ∧ (taken, rest) ∈ step before (taken ++ rest))
    (iterated : Iterated P n before taken rest) (enough : least ≤ n) (few : ∀ bound, most = some bound → n ≤ bound)
    (fueled : taken.length ≤ fuel) : (taken, rest) ∈ repeated step greedy fuel least most before (taken ++ rest) := by
  induction n generalizing fuel least most before taken with
  | zero =>
    obtain rfl : taken = [] := iterated
    obtain rfl := Nat.le_zero.mp enough
    cases fuel with
    | zero => exact List.mem_singleton_self _
    | succ fuel => exact mem_repeated_succ.2 (.inl ⟨rfl, rfl, rfl⟩)
  | succ n ih =>
    obtain ⟨first, later, rfl, here, there⟩ := iterated
    obtain ⟨nonempty, stepped⟩ := complete _ _ _ here
    have taking := List.length_pos_iff.mpr nonempty
    rw [List.length_append] at fueled
    cases fuel with
    | zero => omega
    | succ fuel =>
      refine mem_repeated_succ.2 (.inr ⟨fun none => ?_, first, later ++ rest, later, ?_, nonempty, rfl, ?_⟩)
      · exact absurd (few 0 none) (Nat.not_succ_le_zero n)
      · rwa [List.append_assoc]
      · refine ih there (by omega) (fun bound same => ?_) (by omega)
        obtain ⟨most, rfl, rfl⟩ := Option.map_eq_some_iff.mp same
        have less := few most rfl
        rw [Nat.pred_eq_sub_one]
        omega

end Repetition

section Matching

/-- No match is empty. -/
def consumes : Regex → Bool
  | empty => false
  | char _ => true
  | cls _ => true
  | seq first second => first.consumes || second.consumes
  | alt first second => first.consumes && second.consumes
  | rep least _ _ body => decide (0 < least) && body.consumes
  | wordBoundary => false
  | caseInsensitive body => body.consumes

/-- No repeated match is empty. -/
def proper : Regex → Bool
  | seq first second => first.proper && second.proper
  | alt first second => first.proper && second.proper
  | rep _ _ _ body => body.consumes && body.proper
  | caseInsensitive body => body.proper
  | _ => true

theorem Matches.ne_nil {after : List Char} (consumes : regex.consumes = true)
    (matched : Matches alphabet regex folded before text after) : text ≠ [] := by
  induction regex generalizing folded before text after with
  | empty => exact absurd consumes Bool.false_ne_true
  | char c =>
    obtain ⟨d, rfl, _⟩ := matched
    exact List.cons_ne_nil _ _
  | cls members =>
    obtain ⟨d, rfl, _⟩ := matched
    exact List.cons_ne_nil _ _
  | seq first second ihFirst ihSecond =>
    obtain ⟨left, right, rfl, here, there⟩ := matched
    rw [Ne, List.append_eq_nil_iff, not_and_or]
    exact (Bool.or_eq_true_iff.mp consumes).imp (ihFirst · here) (ihSecond · there)
  | alt first second ihFirst ihSecond =>
    obtain ⟨consumes, consumes'⟩ := Bool.and_eq_true_iff.mp consumes
    exact matched.elim (ihFirst consumes) (ihSecond consumes')
  | rep least most greedy body ih =>
    obtain ⟨n, enough, _, iterated⟩ := matched
    obtain ⟨positive, consumes⟩ := Bool.and_eq_true_iff.mp consumes
    have positive := of_decide_eq_true positive
    cases n with
    | zero => omega
    | succ n =>
      obtain ⟨first, rest, rfl, here, _⟩ := iterated
      exact List.append_ne_nil_of_left_ne_nil (ih consumes here) _
  | wordBoundary => exact absurd consumes Bool.false_ne_true
  | caseInsensitive body ih => exact ih consumes matched

theorem splits_sound (member : (taken, rest) ∈ splits alphabet regex folded before text) :
    text = taken ++ rest ∧ Matches alphabet regex folded before taken rest := by
  induction regex generalizing folded before text taken rest with
  | empty =>
    obtain ⟨rfl, rfl⟩ := Prod.mk.inj (List.mem_singleton.mp member)
    exact ⟨rfl, rfl⟩
  | char c =>
    cases text with
    | nil => exact absurd member List.not_mem_nil
    | cons d text =>
      rw [splits] at member
      split_ifs at member with same
      · obtain ⟨rfl, rfl⟩ := Prod.mk.inj (List.mem_singleton.mp member)
        exact ⟨rfl, d, rfl, same⟩
      · exact absurd member List.not_mem_nil
  | cls members =>
    cases text with
    | nil => exact absurd member List.not_mem_nil
    | cons d text =>
      rw [splits] at member
      split_ifs at member with inside
      · obtain ⟨rfl, rfl⟩ := Prod.mk.inj (List.mem_singleton.mp member)
        exact ⟨rfl, d, rfl, inside⟩
      · exact absurd member List.not_mem_nil
  | seq first second ihFirst ihSecond =>
    obtain ⟨⟨left, middle⟩, here, later⟩ := List.mem_flatMap.mp member
    obtain ⟨⟨right, rest⟩, there, same⟩ := List.mem_map.mp later
    obtain ⟨rfl, rfl⟩ := Prod.mk.inj same
    obtain ⟨rfl, matched⟩ := ihFirst here
    obtain ⟨rfl, matched'⟩ := ihSecond there
    exact ⟨(List.append_assoc ..).symm, left, right, rfl, matched, matched'⟩
  | alt first second ihFirst ihSecond =>
    rcases List.mem_append.mp member with left | right
    · exact (ihFirst left).imp_right .inl
    · exact (ihSecond right).imp_right .inr
  | rep least most greedy body ih => exact repeated_sound (fun _ _ _ _ stepped => ih stepped) member
  | wordBoundary =>
    rw [splits] at member
    split_ifs at member with boundary
    · obtain ⟨rfl, rfl⟩ := Prod.mk.inj (List.mem_singleton.mp member)
      exact ⟨rfl, rfl, boundary⟩
    · exact absurd member List.not_mem_nil
  | caseInsensitive body ih => exact ih member

theorem splits_complete (proper : regex.proper = true) (matched : Matches alphabet regex folded before taken rest) :
    (taken, rest) ∈ splits alphabet regex folded before (taken ++ rest) := by
  induction regex generalizing folded before taken rest with
  | empty =>
    obtain rfl : taken = [] := matched
    exact List.mem_singleton_self _
  | char c =>
    obtain ⟨d, rfl, same⟩ := matched
    rw [List.singleton_append, splits, if_pos same]
    exact List.mem_singleton_self _
  | cls members =>
    obtain ⟨d, rfl, inside⟩ := matched
    rw [List.singleton_append, splits, if_pos inside]
    exact List.mem_singleton_self _
  | seq first second ihFirst ihSecond =>
    obtain ⟨left, right, rfl, here, there⟩ := matched
    obtain ⟨proper, proper'⟩ := Bool.and_eq_true_iff.mp proper
    refine List.mem_flatMap.mpr ⟨(left, right ++ rest), ?_, List.mem_map.mpr ⟨(right, rest), ihSecond proper' there, rfl⟩⟩
    rw [List.append_assoc]
    exact ihFirst proper here
  | alt first second ihFirst ihSecond =>
    obtain ⟨proper, proper'⟩ := Bool.and_eq_true_iff.mp proper
    exact List.mem_append.mpr (matched.imp (ihFirst proper) (ihSecond proper'))
  | rep least most greedy body ih =>
    obtain ⟨n, enough, few, iterated⟩ := matched
    obtain ⟨consumes, proper⟩ := Bool.and_eq_true_iff.mp proper
    refine repeated_complete (fun _ _ _ matched => ⟨matched.ne_nil consumes, ih proper matched⟩) iterated enough few ?_
    rw [List.length_append]
    exact Nat.le_add_right _ _
  | wordBoundary =>
    obtain ⟨rfl, boundary⟩ := matched
    rw [List.nil_append, splits, if_pos boundary]
    exact List.mem_singleton_self _
  | caseInsensitive body ih => exact ih proper matched

end Matching

section Replacing

theorem Quiet.cons {c : Char} {gap after : List Char} (quiet : Quiet alphabet regex (before ++ [c]) gap after)
    (absent : ∀ text rest, c :: (gap ++ after) = text ++ rest → ¬ Matches alphabet regex false before text rest) :
    Quiet alphabet regex before (c :: gap) after := by
  intro left right text rest split nonempty whole
  cases left with
  | nil =>
    obtain rfl : c :: gap = right := split
    rw [List.append_nil]
    exact absent text rest whole
  | cons d left =>
    obtain ⟨rfl, rfl⟩ := List.cons.inj split
    have later := quiet left right text rest rfl nonempty whole
    rwa [List.append_assoc] at later

/-- A character at which no match starts stays. -/
theorem Replaced.cons {c : Char} {marker text out : List Char} (replaced : Replaced alphabet regex marker (before ++ [c]) text out)
    (absent : ∀ taken rest, c :: text = taken ++ rest → ¬ Matches alphabet regex false before taken rest) :
    Replaced alphabet regex marker before (c :: text) (c :: out) := by
  cases replaced with
  | rest quiet =>
    refine .rest (quiet.cons ?_)
    rwa [List.append_nil]
  | @hit _ gap found after out quiet nonempty matched later =>
    rw [List.append_assoc, List.singleton_append] at matched
    change Replaced alphabet regex marker before ((c :: gap) ++ (found ++ after)) ((c :: gap) ++ (marker ++ out))
    refine .hit (quiet.cons absent) nonempty matched ?_
    rwa [List.append_assoc before [c]] at later

/-- The engine replaces the leftmost matches. -/
theorem replaceFrom_replaced {marker : List Char} {fuel : ℕ} (consumes : regex.consumes = true) (proper : regex.proper = true)
    (fueled : text.length ≤ fuel) :
    Replaced alphabet regex marker before text (replaceFrom alphabet regex marker fuel before text) := by
  have bare : ∀ before, Quiet alphabet regex before [] [] := fun _ _ _ _ _ split nonempty =>
    absurd (List.append_eq_nil_iff.mp split.symm).2 nonempty
  induction fuel generalizing before text with
  | zero =>
    obtain rfl := List.length_eq_zero_iff.mp (Nat.le_zero.mp fueled)
    exact .rest (bare before)
  | succ fuel ih =>
    unfold replaceFrom
    cases found : splits alphabet regex false before text with
    | cons first others =>
      obtain ⟨taken, rest⟩ := first
      have member : (taken, rest) ∈ splits alphabet regex false before text := by
        rw [found]
        exact List.mem_cons_self
      obtain ⟨rfl, matched⟩ := splits_sound member
      have nonempty := matched.ne_nil consumes
      have taking := List.length_pos_iff.mpr nonempty
      rw [List.length_append] at fueled
      have later : Replaced alphabet regex marker (before ++ [] ++ taken) rest
          (replaceFrom alphabet regex marker fuel (before ++ taken) rest) := by
        rw [List.append_nil]
        exact ih (by omega)
      change Replaced alphabet regex marker before ([] ++ (taken ++ rest))
        ([] ++ (marker ++ replaceFrom alphabet regex marker fuel (before ++ taken) rest))
      refine .hit ?_ nonempty (by rwa [List.append_nil]) later
      exact fun _ _ _ _ split nonempty => absurd (List.append_eq_nil_iff.mp split.symm).2 nonempty
    | nil =>
      cases text with
      | nil => exact .rest (bare before)
      | cons c text =>
        refine (ih (Nat.succ_le_succ_iff.mp fueled)).cons fun taken rest whole matched => ?_
        have member := splits_complete proper matched
        rw [← whole, found] at member
        exact absurd member List.not_mem_nil

theorem replaceAll_replaced {marker : List Char} (consumes : regex.consumes = true) (proper : regex.proper = true) :
    Replaced alphabet regex marker [] text (replaceAll alphabet regex marker text) :=
  replaceFrom_replaced consumes proper (Nat.le_refl _)

end Replacing

theorem not_free_of_mem_splits (member : (taken, rest) ∈ splits alphabet regex false before text) :
    ¬ Free alphabet regex (before ++ text) := by
  intro free
  obtain ⟨rfl, matched⟩ := splits_sound member
  exact free before taken rest rfl matched

/-- The tables of an engine that knows no other characters. -/
def Alphabet.ascii : Alphabet where
  isWord c := c.isAlphanum || c = '_' || c = '\u017f' || c = '\u212a'
  isSpace c := c = ' ' || (9 ≤ c.toNat && c.toNat ≤ 13)
  word_ascii c small := by
    have long : c ≠ '\u017f' := fun same => absurd (same ▸ small) (by decide)
    have kelvin : c ≠ '\u212a' := fun same => absurd (same ▸ small) (by decide)
    rw [decide_eq_false long, decide_eq_false kelvin, Bool.or_false, Bool.or_false]
  space_ascii _ _ := rfl
  word_folding := by decide
  space_folding := by decide

end Regex
