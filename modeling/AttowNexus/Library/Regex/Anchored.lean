import AttowNexus.Library.Regex.Engine

/-! # Patterns between anchors

A pattern that is written between `^` and `$` has to match the whole text. Some engines let the end anchor stand
before a last newline as well. Whether a pattern matches somewhere in a text can be checked place by place, and around
a character that no match has part by part.
-/

namespace Regex

variable (alphabet : Alphabet)

/-- `^r$`, where `$` is the end of the text -/
def matchesWhole (regex : Regex) (text : List Char) : Bool :=
  (splits alphabet regex false [] text).any fun (_, rest) => rest = []

/-- `^r$`, where `$` may also stand before a newline that ends the text -/
def matchesLine (regex : Regex) (text : List Char) : Bool :=
  (splits alphabet regex false [] text).any fun (_, rest) => rest = [] || rest = ['\n']

/-- Whether the pattern matches nowhere in the text -/
def isFree (regex : Regex) (text : List Char) : Bool :=
  (List.range (text.length + 1)).all fun start =>
    (splits alphabet regex false (text.take start) (text.drop start)).isEmpty

variable {alphabet} {regex : Regex} {before before' text after after' : List Char}

theorem mem_splits_nil (proper : regex.proper = true) {taken rest : List Char} :
    (taken, rest) ∈ splits alphabet regex false [] text ↔
      text = taken ++ rest ∧ Matches alphabet regex false [] taken rest := by
  constructor
  · exact splits_sound
  · rintro ⟨rfl, matched⟩
    exact splits_complete proper matched

theorem matchesWhole_iff (proper : regex.proper = true) :
    matchesWhole alphabet regex text = true ↔ Matches alphabet regex false [] text [] := by
  rw [matchesWhole, List.any_eq_true]
  constructor
  · rintro ⟨⟨taken, rest⟩, member, ends⟩
    obtain rfl := of_decide_eq_true ends
    obtain ⟨rfl, matched⟩ := (mem_splits_nil proper).mp member
    rwa [List.append_nil]
  · intro matched
    refine ⟨(text, []), (mem_splits_nil proper).mpr ⟨?_, matched⟩, rfl⟩
    rw [List.append_nil]

theorem matchesLine_of_matchesWhole (whole : matchesWhole alphabet regex text = true) :
    matchesLine alphabet regex text = true := by
  obtain ⟨⟨taken, rest⟩, member, ends⟩ := List.any_eq_true.mp whole
  exact List.any_eq_true.mpr ⟨⟨taken, rest⟩, member, Bool.or_eq_true_iff.mpr (.inl ends)⟩

/-- A class repeated at least once matches the nonempty texts of its characters. -/
theorem matchesWhole_plus_cls {members : CharClass} :
    matchesWhole alphabet (plus (cls members)) text = true ↔
      text ≠ [] ∧ ∀ c ∈ text, alphabet.contains false members c = true :=
  (matchesWhole_iff rfl).trans matches_plus_cls

theorem free_of_isFree (proper : regex.proper = true) (checked : isFree alphabet regex text = true) :
    Free alphabet regex text := by
  rintro left middle right rfl matched
  have start : left.length ∈ List.range ((left ++ (middle ++ right)).length + 1) := by
    rw [List.mem_range, List.length_append]
    omega
  have none := List.all_eq_true.mp checked left.length start
  rw [List.take_left, List.drop_left, List.isEmpty_iff] at none
  have member := splits_complete proper matched
  rw [none] at member
  exact absurd member List.not_mem_nil

/-- Only the characters next to a text decide about the word boundaries in it. -/
theorem keeps_of_wordAt (starts : alphabet.wordAt before.getLast? = alphabet.wordAt before'.getLast?)
    (ends : alphabet.wordAt after.head? = alphabet.wordAt after'.head?) :
    Keeps alphabet before text after before' after' := by
  rintro left right rfl boundary
  have ahead : alphabet.wordAt (before ++ left).getLast? = alphabet.wordAt (before' ++ left).getLast? := by
    by_cases bare : left = []
    · rwa [bare, List.append_nil, List.append_nil]
    · rw [List.getLast?_append_of_ne_nil _ bare, List.getLast?_append_of_ne_nil _ bare]
  have behind : alphabet.wordAt (right ++ after).head? = alphabet.wordAt (right ++ after').head? := by
    cases right with
    | nil => exact ends
    | cons next rest => rfl
  rwa [Alphabet.Boundary, ← ahead, ← behind]

/-- Around a character outside words that no match has, the matches are those in the two parts. -/
theorem free_append_cons_iff {c : Char} {first second : List Char} (consumes : regex.consumes = true)
    (outside : alphabet.isWord c = false)
    (apart : ∀ left middle right, first ++ c :: second = left ++ (middle ++ right) →
      Matches alphabet regex false left middle right → c ∉ middle) :
    Free alphabet regex (first ++ c :: second) ↔ Free alphabet regex first ∧ Free alphabet regex second := by
  have ends : ∀ right, alphabet.wordAt (right ++ c :: second).head? = alphabet.wordAt right.head?
    | [] => outside
    | _ :: _ => rfl
  have starts : ∀ left, alphabet.wordAt (first ++ c :: left).getLast? = alphabet.wordAt left.getLast? := by
    intro left
    rw [List.getLast?_append_of_ne_nil _ (List.cons_ne_nil _ _)]
    cases left with
    | nil => exact outside
    | cons d rest => rw [List.getLast?_cons_cons]
  constructor
  · intro free
    constructor
    · rintro left middle right rfl matched
      refine free left middle (right ++ c :: second) ?_ (matched.transfer (.inr (keeps_of_wordAt rfl (ends right).symm)))
      simp only [List.append_assoc]
    · rintro left middle right rfl matched
      refine free (first ++ c :: left) middle right ?_ (matched.transfer (.inr (keeps_of_wordAt (starts left).symm rfl)))
      simp only [List.append_assoc, List.cons_append]
  · rintro ⟨freeFirst, freeSecond⟩ left middle right split matched
    have absent := apart left middle right split matched
    rcases List.append_eq_append_iff.mp split with ⟨gap, rfl, later⟩ | ⟨gap, rfl, later⟩
    · cases gap with
      | nil =>
        -- the match would start with the character
        obtain ⟨d, rest, rfl⟩ := List.exists_cons_of_ne_nil (matched.ne_nil consumes)
        exact absent ((List.cons.inj later).1 ▸ List.mem_cons_self)
      | cons d gap =>
        obtain ⟨rfl, rfl⟩ := List.cons.inj later
        exact freeSecond gap middle right rfl (matched.transfer (.inr (keeps_of_wordAt (starts gap) rfl)))
    · rcases List.append_eq_append_iff.mp later with ⟨rest, rfl, rfl⟩ | ⟨rest, rfl, behind⟩
      · exact freeFirst left middle rest rfl (matched.transfer (.inr (keeps_of_wordAt rfl (ends rest))))
      · cases rest with
        | nil =>
          obtain rfl : c :: second = right := behind
          rw [List.append_nil] at matched
          exact freeFirst left gap [] (by rw [List.append_nil]) (matched.transfer (.inr (keeps_of_wordAt rfl (ends []))))
        | cons d rest =>
          exact absent ((List.cons.inj behind).1 ▸ List.mem_append_right _ List.mem_cons_self)

end Regex
