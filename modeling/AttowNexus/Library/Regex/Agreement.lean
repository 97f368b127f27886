import AttowNexus.Library.Regex.Engine

/-! # Engines with different tables

Two engines that agree on the white space of a text find the same matches of a pattern that asks for no word
boundaries. Where it stands between word boundaries, they have to agree on the characters next to what its middle part
matches. Replacement puts a marker between characters that stood next to something else, and takes nothing back.
-/

namespace Regex

variable {first second : Alphabet} {regex : Regex} {folded : Bool} {before before' text taken rest marker out : List Char}

/-- The engines say the same of the white space in a text. -/
def SameSpace (first second : Alphabet) (text : List Char) : Prop := ∀ c ∈ text, first.isSpace c = second.isSpace c

theorem SameSpace.right (same : SameSpace first second (taken ++ rest)) : SameSpace first second rest :=
  fun c member => same c (List.mem_append_right _ member)

section Splits

theorem repeated_congr {step other : List Char → List Char → List (List Char × List Char)} {greedy : Bool} {fuel least : ℕ}
    {most : Option ℕ} {P : List Char → Prop} (agree : ∀ before text, P text → step before text = other before text)
    (later : ∀ before text, P text → ∀ split ∈ step before text, P split.2) (holds : P text) :
    repeated step greedy fuel least most before text = repeated other greedy fuel least most before text := by
  induction fuel generalizing least most before text with
  | zero => rfl
  | succ fuel ih =>
    rw [repeated, repeated, ← agree before text holds]
    -- once for each order of going on and stopping
    congr 2
    all_goals
      refine ite_congr rfl (fun _ => rfl) fun _ => List.flatMap_congr fun split member => ?_
      obtain ⟨taken, rest⟩ := split
      dsimp only
      rw [ih (later before text holds _ member)]

/-- A pattern without word boundaries is matched by what the tables say of the text alone. -/
theorem splits_congr (blind : regex.blind = true) (same : SameSpace first second text) :
    splits first regex folded before text = splits second regex folded before text := by
  induction regex generalizing folded before text with
  | empty => rfl
  | char c => rfl
  | cls members =>
    cases text with
    | nil => rfl
    | cons d rest =>
      have contains : first.contains folded members d = second.contains folded members d := by
        rw [Alphabet.contains, Alphabet.contains, same d List.mem_cons_self]
      rw [splits, splits, contains]
  | seq left right ihLeft ihRight =>
    obtain ⟨blind, blind'⟩ := Bool.and_eq_true_iff.mp blind
    rw [splits, splits, ← ihLeft blind same]
    refine List.flatMap_congr fun split member => ?_
    obtain ⟨taken, rest⟩ := split
    obtain ⟨rfl, _⟩ := splits_sound member
    dsimp only
    rw [ihRight blind' same.right]
  | alt left right ihLeft ihRight =>
    obtain ⟨blind, blind'⟩ := Bool.and_eq_true_iff.mp blind
    rw [splits, splits, ihLeft blind same, ihRight blind' same]
  | rep least most greedy body ih =>
    refine repeated_congr (fun before text same => ih blind same) (fun before text same split member => ?_) same
    obtain ⟨taken, rest⟩ := split
    obtain ⟨rfl, _⟩ := splits_sound member
    exact same.right
  | wordBoundary => exact absurd blind Bool.false_ne_true
  | caseInsensitive body ih => exact ih blind same

/-- A word boundary at the end keeps the matches that end at one. -/
theorem splits_concat_wordBoundary {parts : List Regex} :
    splits first (all (parts ++ [wordBoundary])) folded before text =
      (splits first (all parts) folded before text).filter fun split => first.Boundary (before ++ split.1) split.2 := by
  induction parts generalizing before text with
  | nil =>
    change splits first (seq wordBoundary empty) folded before text = List.filter _ [([], text)]
    by_cases boundary : first.Boundary before text
    · simp [splits, boundary]
    · simp [splits, boundary]
  | cons part parts ih =>
    change splits first (seq part (all (parts ++ [wordBoundary]))) folded before text =
      List.filter _ (splits first (seq part (all parts)) folded before text)
    rw [splits, splits, List.filter_flatMap]
    refine List.flatMap_congr fun split _ => ?_
    obtain ⟨taken, rest⟩ := split
    dsimp only
    rw [ih, List.filter_map]
    refine congrArg (List.map _) (List.filter_congr fun more _ => ?_)
    rw [Function.comp_apply, List.append_assoc]

theorem splits_cons_wordBoundary {parts : List Regex} :
    splits first (all (wordBoundary :: parts)) folded before text =
      if first.Boundary before text then splits first (all parts) folded before text else [] := by
  change splits first (seq wordBoundary (all parts)) folded before text = _
  rw [splits, splits]
  split_ifs with boundary
  · rw [List.flatMap_singleton]
    dsimp only
    rw [List.append_nil]
    exact List.map_id' _
  · rfl

/-- Every character of a match is one of ASCII or folds to one. -/
def takesAscii : Regex → Bool
  | empty => true
  | char c => decide ((fold c).toNat < 128)
  | cls members => !members.negated && !members.space && members.ranges.all fun range => range.2.toNat < 128
  | seq first second => takesAscii first && takesAscii second
  | alt first second => takesAscii first && takesAscii second
  | rep _ _ _ body => takesAscii body
  | wordBoundary => true
  | caseInsensitive body => takesAscii body

theorem Matches.folding {after : List Char} {c : Char} (matched : Matches first regex folded before text after)
    (ascii : regex.takesAscii = true) (member : c ∈ text) : Folding c := by
  induction regex generalizing folded before text after with
  | empty =>
    obtain rfl := matched
    exact absurd member List.not_mem_nil
  | char d =>
    obtain ⟨e, rfl, same⟩ := matched
    obtain rfl := List.mem_singleton.mp member
    refine folding_of_fold ?_
    cases folded with
    | false => exact of_decide_eq_true same ▸ of_decide_eq_true ascii
    | true => exact (of_decide_eq_true same : fold d = fold c) ▸ of_decide_eq_true ascii
  | cls members =>
    obtain ⟨d, rfl, inside⟩ := matched
    obtain rfl := List.mem_singleton.mp member
    rw [takesAscii, Bool.and_eq_true_iff, Bool.and_eq_true_iff, Bool.not_eq_true', Bool.not_eq_true'] at ascii
    obtain ⟨⟨plain, spaceless⟩, small⟩ := ascii
    rw [Alphabet.contains, plain, spaceless, Bool.false_and, Bool.or_false, Bool.false_bne] at inside
    refine folding_of_listed (fun range listed => ?_) inside
    exact of_decide_eq_true (List.all_eq_true.mp small range listed)
  | seq left right ihLeft ihRight =>
    obtain ⟨taken, rest, rfl, here, there⟩ := matched
    obtain ⟨ascii, ascii'⟩ := Bool.and_eq_true_iff.mp ascii
    exact (List.mem_append.mp member).elim (ihLeft here ascii) (ihRight there ascii')
  | alt left right ihLeft ihRight =>
    obtain ⟨ascii, ascii'⟩ := Bool.and_eq_true_iff.mp ascii
    exact matched.elim (fun here => ihLeft here ascii member) fun there => ihRight there ascii' member
  | rep least most greedy body ih =>
    obtain ⟨n, _, _, iterated⟩ := matched
    obtain ⟨_, _, _, matched', member'⟩ := iterated.exists_mem member
    exact ih matched' ascii member'
  | wordBoundary =>
    obtain ⟨rfl, _⟩ := matched
    exact absurd member List.not_mem_nil
  | caseInsensitive body ih => exact ih matched ascii member

/-- The engines agree on whether a word goes on at a place. -/
def SameWord (first second : Alphabet) (place : Option Char) : Prop := first.wordAt place = second.wordAt place

/-- The tables of all engines agree on ASCII and what folds to it. -/
theorem sameWord_of_folding {c : Char} (folding : Folding c) : SameWord first second (some c) := by
  rw [SameWord, Alphabet.wordAt, Alphabet.wordAt]
  rcases folding with ascii | rfl | rfl
  · rw [first.word_ascii c ascii, second.word_ascii c ascii]
  · rw [first.word_folding.1, second.word_folding.1]
  · rw [first.word_folding.2, second.word_folding.2]

theorem boundary_congr (left : SameWord first second before.getLast?) (right : SameWord first second text.head?) :
    first.Boundary before text ↔ second.Boundary before text := by
  rw [Alphabet.Boundary, Alphabet.Boundary, left, right]

theorem sameWord_getLast? {after : List Char} (full : after ≠ []) (own : ∀ c ∈ after, SameWord first second (some c)) :
    SameWord first second (before ++ after).getLast? := by
  rw [List.getLast?_append_of_ne_nil _ full, List.getLast?_eq_some_getLast full]
  exact own _ (List.getLast_mem full)

theorem sameWord_head? {after : List Char} (full : taken ≠ []) (own : ∀ c ∈ taken, SameWord first second (some c)) :
    SameWord first second (taken ++ after).head? := by
  rw [List.head?_append_of_ne_nil _ full, List.head?_eq_some_head full]
  exact own _ (List.head_mem full)

/-- A pattern after a word boundary: the engines have to agree on what stands before its matches. -/
theorem splits_opened_congr {parts : List Regex}
    (same : splits first (all parts) folded before text = splits second (all parts) folded before text)
    (own : ∀ taken rest, (taken, rest) ∈ splits first (all parts) folded before text →
      SameWord first second before.getLast? ∧ SameWord first second text.head?) :
    splits first (all (wordBoundary :: parts)) folded before text =
      splits second (all (wordBoundary :: parts)) folded before text := by
  rw [splits_cons_wordBoundary, splits_cons_wordBoundary, ← same]
  by_cases none : splits first (all parts) folded before text = []
  · rw [none, ite_self, ite_self]
  · obtain ⟨⟨taken, rest⟩, member⟩ := List.exists_mem_of_ne_nil _ none
    obtain ⟨left, right⟩ := own taken rest member
    exact if_congr (boundary_congr left right) rfl rfl

/-- Before a word boundary they have to agree on what follows. -/
theorem splits_closed_congr {parts : List Regex} (consumes : (all parts).consumes = true)
    (same : splits first (all parts) folded before text = splits second (all parts) folded before text)
    (own : ∀ taken rest, (taken, rest) ∈ splits first (all parts) folded before text →
      SameWord first second rest.head? ∧ ∀ c ∈ taken, SameWord first second (some c)) :
    splits first (all (parts ++ [wordBoundary])) folded before text =
      splits second (all (parts ++ [wordBoundary])) folded before text := by
  rw [splits_concat_wordBoundary, splits_concat_wordBoundary, ← same]
  refine List.filter_congr fun split member => ?_
  obtain ⟨taken, rest⟩ := split
  obtain ⟨right, chars⟩ := own taken rest member
  obtain ⟨rfl, matched⟩ := splits_sound member
  exact decide_eq_decide.mpr (boundary_congr (sameWord_getLast? (matched.ne_nil consumes) chars) right)

end Splits

section Replacing

/-- Engines that find the same at every place of a text replace the same. -/
theorem replaceFrom_congr {fuel : ℕ} (same : ∀ left right, before ++ text = left ++ right →
      splits first regex false left right = splits second regex false left right) :
    replaceFrom first regex marker fuel before text = replaceFrom second regex marker fuel before text := by
  induction fuel generalizing before text with
  | zero => rfl
  | succ fuel ih =>
    unfold replaceFrom
    rw [← same before text rfl]
    cases found : splits first regex false before text with
    | cons split others =>
      obtain ⟨taken, rest⟩ := split
      have member : (taken, rest) ∈ splits first regex false before text := by
        rw [found]
        exact List.mem_cons_self
      obtain ⟨rfl, _⟩ := splits_sound member
      refine congrArg (marker ++ ·) (ih fun left right whole => same left right ?_)
      rw [← whole, List.append_assoc]
    | nil =>
      cases text with
      | nil => rfl
      | cons c rest =>
        refine congrArg (c :: ·) (ih fun left right whole => same left right ?_)
        rw [← whole, List.append_assoc, List.singleton_append]

theorem replaceAll_congr (same : ∀ left right, text = left ++ right →
      splits first regex false left right = splits second regex false left right) :
    replaceAll first regex marker text = replaceAll second regex marker text := replaceFrom_congr same

theorem Replaced.mem {c : Char} (replaced : Replaced first regex marker before text out) (member : c ∈ out) :
    c ∈ text ∨ c ∈ marker := by
  induction replaced with
  | rest => exact .inl member
  | @hit before gap found after out _ _ _ _ ih =>
    rcases List.mem_append.mp member with inGap | later
    · exact .inl (List.mem_append_left _ inGap)
    · rcases List.mem_append.mp later with inMarker | inOut
      · exact .inr inMarker
      · refine (ih inOut).imp_left fun inAfter => ?_
        exact List.mem_append_right _ (List.mem_append_right _ inAfter)

/-- What stands around the matches of a pattern, wherever they are -/
def Around (alphabet : Alphabet) (core : Regex) (P : Option Char → Option Char → Prop) (before text : List Char) : Prop :=
  ∀ left middle right, text = left ++ (middle ++ right) → Matches alphabet core false [] middle [] →
    P (before ++ left).getLast? right.head?

/-- After a replacement the matches of a solid pattern stand next to what they stood next to, or to the marker. -/
theorem Replaced.around {opening closing : Char} {inner : List Char} {core : Regex} {P : Option Char → Option Char → Prop}
    (replaced : Replaced first regex (opening :: (inner ++ [closing])) before text out)
    (solid : ∀ text, Matches second core false [] text [] → Solid opening closing inner text)
    (closes : ∀ x y, P x y → P (some closing) y) (opens : ∀ x y, P x y → P x (some opening))
    (edge : before'.getLast? = before.getLast? ∨ before'.getLast? = some closing)
    (around : Around second core P before text) : Around second core P before' out := by
  have moved : ∀ {before before' : List Char}, before'.getLast? = before.getLast? ∨ before'.getLast? = some closing →
      ∀ (left : List Char) (next : Option Char), P (before ++ left).getLast? next → P (before' ++ left).getLast? next := by
    intro before before' edge left next holds
    by_cases bare : left = []
    · subst bare
      rw [List.append_nil] at holds ⊢
      rcases edge with same | marked
      · rwa [same]
      · rw [marked]
        exact closes _ _ holds
    · rwa [List.getLast?_append_of_ne_nil _ bare] at holds ⊢
  induction replaced generalizing before' with
  | @rest before text quiet =>
    intro left middle right split matched
    exact moved edge left _ (around left middle right split matched)
  | @hit before gap found after out quiet nonempty _ _ ih =>
    intro left middle right split matched
    rcases (solid middle matched).cases split with ⟨rest, rfl, rfl⟩ | ⟨rest, rfl, rfl⟩
    · have held := around left middle (rest ++ (found ++ after)) (by simp) matched
      refine moved edge left _ ?_
      by_cases bare : rest = []
      · subst bare
        exact opens _ _ held
      · rwa [List.head?_append_of_ne_nil _ bare] at held ⊢
    · have later : Around second core P (before ++ gap ++ found) after := by
        intro left middle right split matched
        have held := around (gap ++ (found ++ left)) middle right (by rw [split]; simp) matched
        rwa [← List.append_assoc, ← List.append_assoc] at held
      have marked : (before' ++ gap ++ (opening :: (inner ++ [closing]))).getLast? = some closing := by
        rw [List.getLast?_append_of_ne_nil _ (List.cons_ne_nil _ _), ← List.cons_append, List.getLast?_concat]
      have held := ih (.inr marked) later rest middle right rfl matched
      rwa [List.append_assoc, List.append_assoc] at held

end Replacing

end Regex
