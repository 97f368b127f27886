import AttowNexus.Library.Regex.Matching
import Mathlib.Data.List.Basic
import Mathlib.Data.List.Induction

/-! # Replacing the matches of a pattern

Replacement walks through a text from the left and puts a marker in place of each match that it meets, so no match
starts in what it leaves standing. A text that cannot overlap the marker and is found afterwards was standing
before. From this follows which patterns still match after a replacement, their own or that of another pattern.
-/

namespace Regex

variable {alphabet : Alphabet} {regex other : Regex} {before before' text after after' out : List Char}

/-- No match starts in the gap. -/
def Quiet (alphabet : Alphabet) (regex : Regex) (before gap after : List Char) : Prop :=
  ∀ left right text rest, gap = left ++ right → right ≠ [] → right ++ after = text ++ rest →
    ¬ Matches alphabet regex false (before ++ left) text rest

/-- The pattern matches nowhere in the text. -/
def Free (alphabet : Alphabet) (regex : Regex) (text : List Char) : Prop :=
  ∀ left middle right, text = left ++ (middle ++ right) → ¬ Matches alphabet regex false left middle right

/-- Leftmost replacement of non-overlapping matches, none of which is empty. -/
inductive Replaced (alphabet : Alphabet) (regex : Regex) (marker : List Char) : List Char → List Char → List Char → Prop
  | rest {before text : List Char} (quiet : Quiet alphabet regex before text []) :
      Replaced alphabet regex marker before text text
  | hit {before gap text after out : List Char} (quiet : Quiet alphabet regex before gap (text ++ after))
      (nonempty : text ≠ []) (matched : Matches alphabet regex false (before ++ gap) text after)
      (later : Replaced alphabet regex marker (before ++ gap ++ text) after out) :
      Replaced alphabet regex marker before (gap ++ (text ++ after)) (gap ++ (marker ++ out))

theorem Quiet.left {gap later : List Char} (quiet : Quiet alphabet regex before (gap ++ later) []) :
    Quiet alphabet regex before gap later := by
  rintro left right text rest rfl nonempty split
  exact quiet left (right ++ later) text rest (List.append_assoc ..)
    (fun bare => nonempty (List.append_eq_nil_iff.mp bare).1) (by rwa [List.append_nil])

theorem Quiet.right {gap later : List Char} (quiet : Quiet alphabet regex before (gap ++ later) []) :
    Quiet alphabet regex (before ++ gap) later [] := by
  rintro left right text rest rfl nonempty split
  have absent := quiet (gap ++ left) right text rest (List.append_assoc ..).symm nonempty split
  rwa [← List.append_assoc] at absent

theorem free_iff_quiet (nonempty : ∀ before text after, Matches alphabet regex false before text after → text ≠ []) :
    Free alphabet regex text ↔ Quiet alphabet regex [] text [] := by
  constructor
  · rintro free left right middle rest rfl _ split matched
    exact free left middle rest (by rw [← split, List.append_nil]) matched
  · rintro quiet left middle right rfl matched
    have full := nonempty _ _ _ matched
    exact quiet left (middle ++ right) middle right rfl (fun bare => full (List.append_eq_nil_iff.mp bare).1)
      (List.append_nil _) matched

/-- A replacement leaves a text without a match alone and puts the marker into any other. -/
theorem Replaced.free_or_marked {marker : List Char}
    (nonempty : ∀ before text after, Matches alphabet regex false before text after → text ≠ [])
    (replaced : Replaced alphabet regex marker [] text out) :
    out = text ∧ Free alphabet regex text ∨ marker <:+: out ∧ ¬ Free alphabet regex text := by
  cases replaced with
  | rest quiet => exact .inl ⟨rfl, (free_iff_quiet nonempty).mpr quiet⟩
  | @hit _ gap found after out _ _ matched _ =>
    refine .inr ⟨⟨gap, out, List.append_assoc ..⟩, fun free => ?_⟩
    exact free gap found after rfl matched

/-- A text without a match is left as it is. -/
theorem Replaced.eq_of_free {marker : List Char} (replaced : Replaced alphabet regex marker [] text out)
    (free : Free alphabet regex text) : out = text := by
  cases replaced with
  | rest => rfl
  | @hit _ gap found after out _ _ matched _ => exact absurd matched (free gap found after rfl)

section Solid

variable {opening closing : Char} {inner : List Char}

/-- A text that cannot overlap the marker. -/
structure Solid (opening closing : Char) (inner text : List Char) : Prop where
  opening : opening ∉ text
  closing : closing ∉ text
  foreign : ∃ c ∈ text, c ∉ inner

theorem Solid.ne_nil (solid : Solid opening closing inner text) : text ≠ [] := by
  obtain ⟨c, member, _⟩ := solid.foreign
  exact List.ne_nil_of_mem member

/-- A solid text stands before the marker or after it. -/
theorem Solid.cases {gap left right : List Char} (solid : Solid opening closing inner text)
    (split : gap ++ ((opening :: (inner ++ [closing])) ++ out) = left ++ (text ++ right)) :
    (∃ rest, gap = left ++ (text ++ rest) ∧ right = rest ++ ((opening :: (inner ++ [closing])) ++ out)) ∨
    (∃ rest, left = gap ++ ((opening :: (inner ++ [closing])) ++ rest) ∧ out = rest ++ (text ++ right)) := by
  rcases List.append_eq_append_iff.mp split with ⟨between, rfl, marked⟩ | ⟨between, rfl, marked⟩
  · rcases List.append_eq_append_iff.mp marked with ⟨rest, rfl, rfl⟩ | ⟨piece, whole, covered⟩
    · exact .inr ⟨rest, rfl, rfl⟩
    · cases piece using List.reverseRecOn with
      | nil =>
        rw [List.append_nil] at whole
        refine .inr ⟨[], by rw [← whole, List.append_nil], ?_⟩
        simpa using covered.symm
      | append_singleton piece last =>
        exfalso
        -- the piece ends as the marker does, so the text holds the closing character or lies inside the marker
        have ends : last = closing := by
          have lasts := congrArg List.getLast? whole
          rw [← List.cons_append, ← List.append_assoc, List.getLast?_concat, List.getLast?_concat] at lasts
          exact (Option.some.inj lasts).symm
        rcases List.append_eq_append_iff.mp covered with ⟨_, inside, _⟩ | ⟨_, rfl, _⟩
        · obtain ⟨c, member, foreign⟩ := solid.foreign
          have marked : c ∈ opening :: (inner ++ [closing]) := by
            rw [whole, inside]
            exact List.mem_append_right _ (List.mem_append_left _ member)
          rcases List.mem_cons.mp marked with rfl | later
          · exact solid.opening member
          · rcases List.mem_append.mp later with within | closes
            · exact foreign within
            · exact solid.closing (List.mem_singleton.mp closes ▸ member)
        · exact solid.closing (by simp [ends])
  · rcases List.append_eq_append_iff.mp marked with ⟨rest, rfl, rfl⟩ | ⟨piece, rfl, covered⟩
    · exact .inl ⟨rest, rfl, rfl⟩
    · cases piece with
      | nil => exact .inl ⟨[], by simp, by simpa using covered.symm⟩
      | cons c piece =>
        exfalso
        obtain rfl : opening = c := (List.cons.inj covered).1
        exact solid.opening (by simp)

/-- What is solid and found after a replacement was there before it. -/
theorem Replaced.infix_of_solid (replaced : Replaced alphabet regex (opening :: (inner ++ [closing])) before text out)
    {found : List Char} (solid : Solid opening closing inner found) (inside : found <:+: out) : found <:+: text := by
  induction replaced with
  | rest quiet => exact inside
  | @hit before gap matchText after out quiet nonempty matched later ih =>
    obtain ⟨left, right, split⟩ := inside
    rw [List.append_assoc] at split
    rcases solid.cases split.symm with ⟨rest, rfl, _⟩ | ⟨rest, _, rfl⟩
    · exact ⟨left, rest ++ (matchText ++ after), by simp⟩
    · obtain ⟨before', after', same⟩ := ih ⟨rest, right, by simp⟩
      exact ⟨gap ++ (matchText ++ before'), after', by rw [← same]; simp⟩

section Edges

/-- Every match stands after a non-word character or at the start, and no word boundary is lost when a non-word
character takes its place. -/
def Framed (alphabet : Alphabet) (regex : Regex) : Prop :=
  ∀ before text after, Matches alphabet regex false before text after →
    alphabet.wordAt before.getLast? = false ∧
      (alphabet.wordAt after.head? = true → alphabet.wordAt (before ++ text).getLast? = false)

/-- The text starts at a word boundary after the first part if it does after the second one. -/
def Edge (alphabet : Alphabet) (before before' text : List Char) : Prop :=
  alphabet.wordAt before'.getLast? = alphabet.wordAt before.getLast? ∨
    (alphabet.wordAt before'.getLast? = false ∧
      (alphabet.wordAt text.head? = true → alphabet.wordAt before.getLast? = false))

/-- Inside a text word boundaries do not depend on the context. -/
theorem keeps_of_ends (full : text ≠ [])
    (starts : alphabet.Boundary before (text ++ after) → alphabet.Boundary before' (text ++ after'))
    (ends : alphabet.Boundary (before ++ text) after → alphabet.Boundary (before' ++ text) after') :
    Keeps alphabet before text after before' after' := by
  rintro left right rfl boundary
  by_cases bare : left = []
  · subst bare
    simp only [List.append_nil, List.nil_append] at starts boundary ⊢
    exact starts boundary
  · by_cases bare' : right = []
    · subst bare'
      simp only [List.append_nil, List.nil_append] at ends boundary ⊢
      exact ends boundary
    · rw [Alphabet.Boundary, List.getLast?_append_of_ne_nil _ bare, List.head?_append_of_ne_nil _ bare'] at boundary ⊢
      exact boundary

theorem Edge.starts {left right : List Char} (edge : Edge alphabet before before' (left ++ (text ++ right)))
    (full : text ≠ []) (boundary : alphabet.Boundary (before' ++ left) (text ++ after)) :
    alphabet.Boundary (before ++ left) (text ++ after') := by
  rw [Alphabet.Boundary, List.head?_append_of_ne_nil _ full] at boundary ⊢
  by_cases bare : left = []
  · subst bare
    rw [List.nil_append] at edge
    rw [Edge, List.head?_append_of_ne_nil _ full] at edge
    rw [List.append_nil] at boundary ⊢
    rcases edge with same | ⟨apart, kept⟩
    · rwa [same] at boundary
    · have word : alphabet.wordAt text.head? = true := by
        rw [apart] at boundary
        exact (Bool.not_eq_false _).mp boundary.symm
      rw [kept word, word]
      exact Bool.false_ne_true
  · rwa [List.getLast?_append_of_ne_nil _ bare] at boundary ⊢

/-- Replacing leaves no match of a solid pattern that was not there before: neither of the pattern whose matches are
replaced, nor of one that was quiet. -/
theorem Replaced.quiet_of_solid (replaced : Replaced alphabet regex (opening :: (inner ++ [closing])) before text out)
    (solid : ∀ before text after, Matches alphabet other false before text after → Solid opening closing inner text)
    (opens : alphabet.isWord opening = false) (closes : alphabet.isWord closing = false)
    (context : other.blind = true ∨ (Framed alphabet regex ∧ Edge alphabet before before' text))
    (quiet : other = regex ∨ Quiet alphabet other before text []) : Quiet alphabet other before' out [] := by
  induction replaced generalizing before' with
  | @rest before text quietGap =>
    have quiet' : Quiet alphabet other before text [] := quiet.elim (fun same => same ▸ quietGap) id
    rintro left right found rest rfl nonempty split matched
    refine quiet' left right found rest rfl nonempty split (matched.transfer (context.imp_right fun ⟨_, edge⟩ => ?_))
    have full := (solid _ _ _ matched).ne_nil
    have edge' : Edge alphabet before before' (left ++ (found ++ rest)) := by
      rwa [← split, List.append_nil]
    refine keeps_of_ends full (edge'.starts full) fun boundary => ?_
    rwa [Alphabet.Boundary, List.getLast?_append_of_ne_nil _ full] at boundary ⊢
  | @hit before gap replacedText after out quietGap nonempty matched later ih =>
    have quiet' : Quiet alphabet other before gap (replacedText ++ after) :=
      quiet.elim (fun same => same ▸ quietGap) Quiet.left
    rintro left right found rest split _ whole found'
    have solid' := solid _ _ _ found'
    have full := solid'.ne_nil
    have placed : gap ++ ((opening :: (inner ++ [closing])) ++ out) = left ++ (found ++ rest) := by
      rw [split, ← whole, List.append_nil]
    rcases solid'.cases placed with ⟨tail, rfl, rfl⟩ | ⟨skipped, rfl, rfl⟩
    · refine quiet' left (found ++ tail) found (tail ++ (replacedText ++ after)) rfl
        (fun bare => full (List.append_eq_nil_iff.mp bare).1) (List.append_assoc ..)
        (found'.transfer (context.imp_right fun ⟨framed, edge⟩ => ?_))
      rw [List.append_assoc, List.append_assoc] at edge
      refine keeps_of_ends full (edge.starts full) fun boundary => ?_
      by_cases bare : tail = []
      · -- the gap ends in a non-word character, and so does the found text
        subst bare
        have apart := (framed _ _ _ matched).1
        rw [List.append_nil, ← List.append_assoc, List.getLast?_append_of_ne_nil _ full] at apart
        rw [Alphabet.Boundary, List.getLast?_append_of_ne_nil _ full, apart] at boundary
        exact absurd opens.symm boundary
      · rwa [Alphabet.Boundary, List.getLast?_append_of_ne_nil _ full, List.head?_append_of_ne_nil _ bare] at boundary ⊢
    · have context' : other.blind = true ∨ (Framed alphabet regex ∧
          Edge alphabet (before ++ gap ++ replacedText) (before' ++ gap ++ (opening :: (inner ++ [closing]))) after) := by
        refine context.imp_right fun ⟨framed, _⟩ => ⟨framed, .inr ⟨?_, (framed _ _ _ matched).2⟩⟩
        rw [List.getLast?_append_of_ne_nil _ (List.cons_ne_nil _ _), ← List.cons_append, List.getLast?_concat]
        exact closes
      refine ih context' (quiet.imp_right fun quiet => quiet.right.right) skipped (found ++ rest) found rest rfl
        (fun bare => full (List.append_eq_nil_iff.mp bare).1) (List.append_nil _) ?_
      simpa using found'

end Edges

/-- A head, something, and a tail. -/
def Spans (head tail : List Char → Prop) (text : List Char) : Prop :=
  ∃ front middle back, text = front ++ (middle ++ back) ∧ head front ∧ middle ≠ [] ∧ tail back

/-- The same for a pattern whose matches reach from a solid head to a solid tail, across any number of markers. -/
theorem Replaced.quiet_of_spans (replaced : Replaced alphabet regex (opening :: (inner ++ [closing])) before text out)
    {head tail : List Char → Prop}
    (spans : ∀ before text after, Matches alphabet other false before text after ↔ Spans head tail text)
    (solidHead : ∀ text, head text → Solid opening closing inner text)
    (solidTail : ∀ text, tail text → Solid opening closing inner text)
    (quiet : other = regex ∨ Quiet alphabet other before text []) : Quiet alphabet other before' out [] := by
  induction replaced generalizing before' with
  | @rest before text quietGap =>
    have quiet' : Quiet alphabet other before text [] := quiet.elim (fun same => same ▸ quietGap) id
    intro left right found rest split nonempty whole matched
    exact quiet' left right found rest split nonempty whole ((spans _ _ _).mpr ((spans _ _ _).mp matched))
  | @hit before gap replacedText after out quietGap nonempty matched later ih =>
    have quiet' : Quiet alphabet other before gap (replacedText ++ after) :=
      quiet.elim (fun same => same ▸ quietGap) Quiet.left
    rintro left right _ rest split full whole found
    obtain ⟨front, middle, back, rfl, isHead, filled, isTail⟩ := (spans _ _ _).mp found
    have placed : gap ++ ((opening :: (inner ++ [closing])) ++ out) = left ++ (front ++ (middle ++ (back ++ rest))) := by
      rw [split, ← List.append_nil right, whole]
      simp
    rcases (solidHead front isHead).cases placed with ⟨between, rfl, reached⟩ | ⟨skipped, rfl, rfl⟩
    · -- the head is left standing, so the pattern matched there before, up to this tail or a later one
      have frontFull := (solidHead front isHead).ne_nil
      have begins : front ++ between ≠ [] := fun bare => frontFull (List.append_eq_nil_iff.mp bare).1
      rcases (solidTail back isTail).cases reached.symm with ⟨rest', rfl, rfl⟩ | ⟨rest', rfl, rfl⟩
      · exact quiet' left _ (front ++ (middle ++ back)) (rest' ++ (replacedText ++ after)) rfl begins (by simp)
          ((spans _ _ _).mpr ⟨front, middle, back, rfl, isHead, filled, isTail⟩)
      · obtain ⟨skipped, rest'', rfl⟩ := later.infix_of_solid (solidTail back isTail) ⟨rest', rest, by simp⟩
        refine quiet' left _ (front ++ ((between ++ (replacedText ++ skipped)) ++ back)) rest'' rfl begins (by simp)
          ((spans _ _ _).mpr ⟨front, _, back, rfl, isHead, ?_, isTail⟩)
        simp [nonempty]
    · refine ih (quiet.imp_right fun quiet => quiet.right.right) skipped (front ++ (middle ++ (back ++ rest)))
        (front ++ (middle ++ back)) rest rfl ?_ (by simp)
        ((spans ([] ++ skipped) _ _).mpr ⟨front, middle, back, rfl, isHead, filled, isTail⟩)
      exact fun bare => (solidHead front isHead).ne_nil (List.append_eq_nil_iff.mp bare).1

end Solid

section Stages

/-- Replacing the matches of the second pattern leaves none of the first, if there were none or they are its own. -/
def Survives (alphabet : Alphabet) (marker : List Char) (other regex : Regex) : Prop :=
  ∀ text out, Replaced alphabet regex marker [] text out → (other = regex ∨ Free alphabet other text) →
    Free alphabet other out

/-- Patterns whose absence survives the later replacements are absent after the last one. -/
theorem free_of_stages {marker : List Char} {replace : Regex → List Char → List Char} {stages : List Regex}
    (replaces : ∀ regex ∈ stages, ∀ text, Replaced alphabet regex marker [] text (replace regex text))
    (own : ∀ regex ∈ stages, Survives alphabet marker regex regex)
    (later : stages.Pairwise (Survives alphabet marker)) (text : List Char) :
    ∀ regex ∈ stages, Free alphabet regex (stages.foldl (fun text regex => replace regex text) text) := by
  induction stages using List.reverseRecOn with
  | nil => exact fun regex member => absurd member List.not_mem_nil
  | append_singleton stages last ih =>
    obtain ⟨replacesInit, replacesLast⟩ := List.forall_mem_append.mp replaces
    obtain ⟨ownInit, ownLast⟩ := List.forall_mem_append.mp own
    obtain ⟨laterInit, _, laterLast⟩ := List.pairwise_append.mp later
    have free := ih replacesInit ownInit laterInit
    have replaced := List.forall_mem_singleton.mp replacesLast
      (stages.foldl (fun text regex => replace regex text) text)
    rw [List.foldl_append, List.foldl_cons, List.foldl_nil]
    refine List.forall_mem_append.mpr ⟨fun regex member => ?_, List.forall_mem_singleton.mpr ?_⟩
    · exact laterLast regex member last (List.mem_singleton_self _) _ _ replaced (.inr (free regex member))
    · exact List.forall_mem_singleton.mp ownLast _ _ replaced (.inl rfl)

end Stages

end Regex
