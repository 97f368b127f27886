import AttowNexus.Library.Regex
import Mathlib.Tactic.Common

/-! # What a pattern matches

A pattern matches the middle one of three parts of a text; the outer two matter to word boundaries only. Whether
a repetition is greedy decides which of several matches an engine takes, not what matches. Case folding is
carried as far as patterns of ASCII characters need it.
-/

namespace Regex

/-- The character tables of an engine: what they say of ASCII is fixed, and so is what they say of the two other
characters that fold to ASCII letters. -/
structure Alphabet where
  isWord : Char → Bool
  isSpace : Char → Bool
  word_ascii : ∀ c : Char, c.toNat < 128 → isWord c = (c.isAlphanum || c = '_')
  space_ascii : ∀ c : Char, c.toNat < 128 → isSpace c = (c = ' ' || (9 ≤ c.toNat && c.toNat ≤ 13))
  word_folding : isWord '\u017f' = true ∧ isWord '\u212a' = true
  space_folding : isSpace '\u017f' = false ∧ isSpace '\u212a' = false

/-- Simple case folding: the long s and the Kelvin sign fold to letters too. -/
def fold (c : Char) : Char := if c = '\u017f' then 's' else if c = '\u212a' then 'k' else c.toLower

/-- Whether a character stands for another one. -/
def sameChar (folded : Bool) (c d : Char) : Bool := if folded then fold c = fold d else c = d

def inRanges (ranges : List (Char × Char)) (c : Char) : Bool := ranges.any fun (low, high) => low ≤ c && c ≤ high

/-- Whether one of the ranges of the class has the character, or with folding one of its cases. -/
def listed (folded : Bool) (members : CharClass) (c : Char) : Bool :=
  inRanges members.ranges c ||
    (folded && (inRanges members.ranges (fold c) || inRanges members.ranges (fold c).toUpper))

namespace Alphabet

variable (alphabet : Alphabet)

def contains (folded : Bool) (members : CharClass) (c : Char) : Bool :=
  members.negated != (listed folded members c || (members.space && alphabet.isSpace c))

theorem contains_of_nonspace {folded : Bool} {members : CharClass} {c : Char} (nonspace : alphabet.isSpace c = false) :
    alphabet.contains folded members c = (members.negated != listed folded members c) := by
  rw [contains, nonspace, Bool.and_false, Bool.or_false]

theorem contains_ranges {folded : Bool} {ranges : List (Char × Char)} {c : Char} :
    alphabet.contains folded ⟨ranges, false, false⟩ c = listed folded ⟨ranges, false, false⟩ c := by
  rw [contains, Bool.false_and, Bool.or_false, Bool.false_bne]

/-- A negated class with white space takes what is neither. -/
theorem contains_neither {folded : Bool} {ranges : List (Char × Char)} {c : Char} :
    alphabet.contains folded ⟨ranges, true, true⟩ c = true ↔
      alphabet.isSpace c = false ∧ ¬ listed folded ⟨ranges, true, true⟩ c = true := by
  rw [contains, Bool.true_and, Bool.true_bne, Bool.not_eq_true', Bool.or_eq_false_iff, Bool.not_eq_true, and_comm]

/-- Whether the tables say that the character is no white space. -/
def nonspace (c : Char) : Bool := c.toNat < 128 && !(c = ' ' || (9 ≤ c.toNat && c.toNat ≤ 13))

theorem isSpace_of_all {chars : List Char} (checked : chars.all nonspace = true) : ∀ c ∈ chars, alphabet.isSpace c = false := by
  intro c member
  have small := List.all_eq_true.mp checked c member
  rw [nonspace, Bool.and_eq_true, Bool.not_eq_true'] at small
  exact (alphabet.space_ascii c (of_decide_eq_true small.1)).trans small.2

/-- Nothing is not a word character. -/
def wordAt : Option Char → Bool
  | none => false
  | some c => alphabet.isWord c

/-- `\b` -/
def Boundary (before after : List Char) : Prop :=
  alphabet.wordAt before.getLast? ≠ alphabet.wordAt after.head?

end Alphabet

/-- A number of matches in a row. -/
def Iterated (step : List Char → List Char → List Char → Prop) : ℕ → List Char → List Char → List Char → Prop
  | 0, _, text, _ => text = []
  | n + 1, before, text, after => ∃ first rest, text = first ++ rest ∧ step before first (rest ++ after) ∧
      Iterated step n (before ++ first) rest after

/-- The pattern matches the text between what is before and what is after it. -/
def Matches (alphabet : Alphabet) : Regex → Bool → List Char → List Char → List Char → Prop
  | empty, _, _, text, _ => text = []
  | char c, folded, _, text, _ => ∃ d, text = [d] ∧ sameChar folded c d = true
  | cls members, folded, _, text, _ => ∃ d, text = [d] ∧ alphabet.contains folded members d = true
  | seq first second, folded, before, text, after => ∃ left right, text = left ++ right ∧
      Matches alphabet first folded before left (right ++ after) ∧
      Matches alphabet second folded (before ++ left) right after
  | alt first second, folded, before, text, after =>
      Matches alphabet first folded before text after ∨ Matches alphabet second folded before text after
  | rep least most _ body, folded, before, text, after => ∃ n, least ≤ n ∧ (∀ bound, most = some bound → n ≤ bound) ∧
      Iterated (Matches alphabet body folded) n before text after
  | wordBoundary, _, before, text, after => text = [] ∧ alphabet.Boundary before after
  | caseInsensitive body, _, before, text, after => Matches alphabet body true before text after

section Ascii

/-- A list of characters is gone through, not the whole type. -/
instance decidableForallMem {P : Char → Prop} [DecidablePred P] {chars : List Char} : Decidable (∀ c ∈ chars, P c) :=
  List.decidableBAll P chars

/-- What was checked of a few characters. -/
theorem forall_mem_of_all {P : Char → Prop} [DecidablePred P] {chars : List Char}
    (checked : (chars.all fun c => decide (P c)) = true) : ∀ c ∈ chars, P c :=
  fun c member => of_decide_eq_true (List.all_eq_true.mp checked c member)

/-- What was checked of the 128 characters. -/
theorem ascii_forall {P : Char → Prop} (checked : ∀ n : Fin 128, P (Char.ofNat n)) {c : Char} (ascii : c.toNat < 128) :
    P c := by
  have holds := checked ⟨c.toNat, ascii⟩
  rwa [Char.ofNat_toNat] at holds

theorem ascii_of_toLower {c : Char} (ascii : c.toLower.toNat < 128) : c.toNat < 128 := by
  delta Char.toLower at ascii
  split at ascii
  case isTrue upper =>
    have below : c.toNat ≤ 90 := upper.2
    omega
  case isFalse => exact ascii

theorem ascii_of_toUpper {c : Char} (ascii : c.toUpper.toNat < 128) : c.toNat < 128 := by
  delta Char.toUpper at ascii
  split at ascii
  case isTrue lower =>
    have below : c.toNat ≤ 122 := lower.2
    omega
  case isFalse => exact ascii

/-- The characters that fold to ASCII ones. -/
def Folding (c : Char) : Prop := c.toNat < 128 ∨ c = '\u017f' ∨ c = '\u212a'

theorem folding_of_fold {c : Char} (ascii : (fold c).toNat < 128) : Folding c := by
  rw [fold] at ascii
  split_ifs at ascii with long kelvin
  · exact .inr (.inl long)
  · exact .inr (.inr kelvin)
  · exact .inl (ascii_of_toLower ascii)

theorem folding_of_listed {folded : Bool} {members : CharClass} {c : Char}
    (ascii : ∀ range ∈ members.ranges, range.2.toNat < 128) (inside : listed folded members c = true) : Folding c := by
  have below : ∀ {d : Char}, inRanges members.ranges d = true → d.toNat < 128 := by
    intro d inside
    obtain ⟨⟨low, high⟩, member, bounds⟩ := List.any_eq_true.mp inside
    have upper : d.toNat ≤ high.toNat := of_decide_eq_true (Bool.and_eq_true_iff.mp bounds).2
    exact Nat.lt_of_le_of_lt upper (ascii _ member)
  rw [listed, Bool.or_eq_true_iff, Bool.and_eq_true_iff, Bool.or_eq_true_iff] at inside
  rcases inside with plain | ⟨_, lower | upper⟩
  · exact .inl (below plain)
  · exact folding_of_fold (below lower)
  · exact folding_of_fold (ascii_of_toUpper (below upper))

/-- A character that no other one folds to stands for itself only. -/
theorem eq_of_sameChar {c d : Char} (ascii : (fold c).toNat < 128) (same : sameChar true c d = true)
    (special : fold c ≠ 's' ∧ fold c ≠ 'k') (plain : ∀ n : Fin 128, fold c = fold (Char.ofNat n) → c = Char.ofNat n) :
    c = d := by
  have folds : fold c = fold d := of_decide_eq_true same
  rcases folding_of_fold (folds ▸ ascii) with small | rfl | rfl
  · exact ascii_forall (P := fun d => fold c = fold d → c = d) plain small folds
  · exact absurd folds special.1
  · exact absurd folds special.2

end Ascii

variable {alphabet : Alphabet} {folded : Bool} {before before' text after after' : List Char}

section Parts

theorem matches_all_cons {part : Regex} {parts : List Regex} :
    Matches alphabet (all (part :: parts)) folded before text after ↔ ∃ left right, text = left ++ right ∧
      Matches alphabet part folded before left (right ++ after) ∧
      Matches alphabet (all parts) folded (before ++ left) right after := Iff.rfl

theorem matches_all_append {parts later : List Regex} :
    Matches alphabet (all (parts ++ later)) folded before text after ↔ ∃ left right, text = left ++ right ∧
      Matches alphabet (all parts) folded before left (right ++ after) ∧
      Matches alphabet (all later) folded (before ++ left) right after := by
  induction parts generalizing before text with
  | nil =>
    constructor
    · exact fun matched => ⟨[], text, rfl, rfl, by rwa [List.append_nil]⟩
    · rintro ⟨_, right, rfl, rfl, matched⟩
      rwa [List.append_nil] at matched
  | cons part parts ih =>
    simp only [List.cons_append, matches_all_cons, ih]
    constructor
    · rintro ⟨first, _, rfl, here, middle, rest, rfl, there, matched⟩
      refine ⟨first ++ middle, rest, (List.append_assoc ..).symm, ⟨first, middle, rfl, ?_, ?_⟩, ?_⟩
      · rwa [← List.append_assoc]
      · exact there
      · rwa [← List.append_assoc]
    · rintro ⟨_, rest, rfl, ⟨first, middle, rfl, here, there⟩, matched⟩
      refine ⟨first, middle ++ rest, List.append_assoc .., ?_, middle, rest, rfl, there, ?_⟩
      · rwa [List.append_assoc]
      · rwa [List.append_assoc]

/-- A pattern between two word boundaries. -/
theorem matches_bounded {parts : List Regex} :
    Matches alphabet (all (wordBoundary :: (parts ++ [wordBoundary]))) folded before text after ↔
      alphabet.Boundary before (text ++ after) ∧ Matches alphabet (all parts) folded before text after ∧
        alphabet.Boundary (before ++ text) after := by
  simp only [matches_all_cons, matches_all_append]
  constructor
  · rintro ⟨_, _, rfl, ⟨rfl, starts⟩, left, _, rfl, matched, _, _, rfl, ⟨rfl, closes⟩, rfl⟩
    simp only [List.append_nil, List.nil_append] at starts matched closes ⊢
    exact ⟨starts, matched, closes⟩
  · rintro ⟨starts, matched, closes⟩
    refine ⟨[], text, rfl, ⟨rfl, starts⟩, text, [], (List.append_nil _).symm, ?_, [], [], rfl, ⟨rfl, ?_⟩, rfl⟩
    · simpa using matched
    · simpa using closes

theorem iterated_cls {members : CharClass} {n : ℕ} :
    Iterated (Matches alphabet (cls members) folded) n before text after ↔
      text.length = n ∧ ∀ c ∈ text, alphabet.contains folded members c = true := by
  induction n generalizing before text with
  | zero =>
    constructor
    · rintro rfl
      exact ⟨rfl, fun c member => absurd member List.not_mem_nil⟩
    · exact fun ⟨bare, _⟩ => List.length_eq_zero_iff.mp bare
  | succ n ih =>
    constructor
    · rintro ⟨_, rest, rfl, ⟨d, rfl, inside⟩, later⟩
      obtain ⟨count, others⟩ := ih.mp later
      exact ⟨congrArg Nat.succ count, List.forall_mem_cons.mpr ⟨inside, others⟩⟩
    · rintro ⟨count, all⟩
      obtain ⟨d, rest, rfl⟩ := List.exists_cons_of_length_eq_add_one count
      obtain ⟨inside, others⟩ := List.forall_mem_cons.mp all
      exact ⟨[d], rest, rfl, ⟨d, rfl, inside⟩, ih.mpr ⟨Nat.succ.inj count, others⟩⟩

/-- A repeated class matches the texts of its characters whose length is in bounds. -/
theorem matches_rep_cls {members : CharClass} {least : ℕ} {most : Option ℕ} {greedy : Bool} :
    Matches alphabet (rep least most greedy (cls members)) folded before text after ↔
      least ≤ text.length ∧ (∀ bound, most = some bound → text.length ≤ bound) ∧
        ∀ c ∈ text, alphabet.contains folded members c = true := by
  constructor
  · rintro ⟨n, enough, few, iterated⟩
    obtain ⟨rfl, all⟩ := iterated_cls.1 iterated
    exact ⟨enough, few, all⟩
  · rintro ⟨enough, few, all⟩
    exact ⟨text.length, enough, few, iterated_cls.2 ⟨rfl, all⟩⟩

theorem matches_plus_cls {members : CharClass} {greedy : Bool} :
    Matches alphabet (rep 1 none greedy (cls members)) folded before text after ↔
      text ≠ [] ∧ ∀ c ∈ text, alphabet.contains folded members c = true := by
  rw [matches_rep_cls, Nat.one_le_iff_ne_zero, Ne, List.length_eq_zero_iff]
  exact and_congr_right fun _ => and_iff_right nofun

theorem sameChar_self (c : Char) : sameChar folded c c = true := by
  cases folded
  · exact decide_eq_true rfl
  · exact decide_eq_true rfl

/-- A word matches itself, and nothing else where each of its characters stands for itself only. -/
theorem matches_literal {word : String} (alone : ∀ c ∈ word.toList, ∀ d, sameChar folded c d = true → c = d) :
    Matches alphabet (literal word) folded before text after ↔ text = word.toList := by
  rw [literal]
  revert alone
  induction word.toList generalizing before text with
  | nil => exact fun _ => Iff.rfl
  | cons c rest ih =>
    intro alone
    obtain ⟨here, there⟩ := List.forall_mem_cons.mp alone
    constructor
    · rintro ⟨_, right, rfl, ⟨d, rfl, same⟩, later⟩
      rw [(ih there).mp later, here d same]
      rfl
    · rintro rfl
      exact ⟨[c], rest, rfl, ⟨c, rfl, sameChar_self c⟩, (ih there).mpr rfl⟩

end Parts

section Context

/-- No word boundary is asked for. -/
def blind : Regex → Bool
  | empty => true
  | char _ => true
  | cls _ => true
  | seq first second => first.blind && second.blind
  | alt first second => first.blind && second.blind
  | rep _ _ _ body => body.blind
  | wordBoundary => false
  | caseInsensitive body => body.blind

/-- Every word boundary of the text in one context is one in the other. -/
def Keeps (alphabet : Alphabet) (before text after before' after' : List Char) : Prop :=
  ∀ left right, text = left ++ right → alphabet.Boundary (before ++ left) (right ++ after) →
    alphabet.Boundary (before' ++ left) (right ++ after')

theorem Keeps.left {left right : List Char} (keeps : Keeps alphabet before (left ++ right) after before' after') :
    Keeps alphabet before left (right ++ after) before' (right ++ after') := by
  rintro first second rfl boundary
  have kept := keeps first (second ++ right) (List.append_assoc ..)
  rw [List.append_assoc, List.append_assoc] at kept
  exact kept boundary

theorem Keeps.right {left right : List Char} (keeps : Keeps alphabet before (left ++ right) after before' after') :
    Keeps alphabet (before ++ left) right after (before' ++ left) after' := by
  rintro first second rfl boundary
  have kept := keeps (left ++ first) second (List.append_assoc ..).symm
  rw [← List.append_assoc, ← List.append_assoc] at kept
  exact kept boundary

theorem Iterated.transfer {body : Regex} {n : ℕ} (iterated : Iterated (Matches alphabet body folded) n before text after)
    (step : ∀ {before before' text after after'}, (body.blind = true ∨ Keeps alphabet before text after before' after') →
      Matches alphabet body folded before text after → Matches alphabet body folded before' text after')
    (context : body.blind = true ∨ Keeps alphabet before text after before' after') :
    Iterated (Matches alphabet body folded) n before' text after' := by
  induction n generalizing before before' text with
  | zero => exact iterated
  | succ n ih =>
    obtain ⟨first, rest, rfl, here, later⟩ := iterated
    exact ⟨first, rest, rfl, step (context.imp_right Keeps.left) here, ih later (context.imp_right Keeps.right)⟩

/-- A match stays one in every context that keeps its word boundaries, or in all contexts if it asks for none. -/
theorem Matches.transfer {regex : Regex} (matched : Matches alphabet regex folded before text after)
    (context : regex.blind = true ∨ Keeps alphabet before text after before' after') :
    Matches alphabet regex folded before' text after' := by
  induction regex generalizing folded before before' text after after' with
  | empty => exact matched
  | char c => exact matched
  | cls members => exact matched
  | seq first second ihFirst ihSecond =>
    obtain ⟨left, right, rfl, here, there⟩ := matched
    simp only [blind, Bool.and_eq_true] at context
    exact ⟨left, right, rfl, ihFirst here (context.imp And.left Keeps.left),
      ihSecond there (context.imp And.right Keeps.right)⟩
  | alt first second ihFirst ihSecond =>
    simp only [blind, Bool.and_eq_true] at context
    rcases matched with left | right
    · exact .inl (ihFirst left (context.imp_left And.left))
    · exact .inr (ihSecond right (context.imp_left And.right))
  | rep least most greedy body ih =>
    obtain ⟨n, enough, few, iterated⟩ := matched
    exact ⟨n, enough, few, iterated.transfer (fun context matched => ih matched context) context⟩
  | wordBoundary =>
    obtain ⟨rfl, boundary⟩ := matched
    rcases context with impossible | keeps
    · exact absurd impossible Bool.false_ne_true
    · exact ⟨rfl, by simpa using keeps [] [] rfl (by simpa using boundary)⟩
  | caseInsensitive body ih => exact ih matched context

end Context

section Characters

/-- Whether some match may have the character, which is not white space. -/
def mayTake : Regex → Bool → Char → Bool
  | empty, _, _ => false
  | char c, folded, d => sameChar folded c d
  | cls members, folded, d => members.negated != listed folded members d
  | seq first second, folded, d => mayTake first folded d || mayTake second folded d
  | alt first second, folded, d => mayTake first folded d || mayTake second folded d
  | rep _ _ _ body, folded, d => mayTake body folded d
  | wordBoundary, _, _ => false
  | caseInsensitive body, _, d => mayTake body true d

theorem Iterated.exists_mem {step : List Char → List Char → List Char → Prop} {n : ℕ} {c : Char}
    (iterated : Iterated step n before text after) (member : c ∈ text) :
    ∃ before' text' after', step before' text' after' ∧ c ∈ text' := by
  induction n generalizing before text with
  | zero =>
    obtain rfl := iterated
    exact absurd member List.not_mem_nil
  | succ n ih =>
    obtain ⟨first, rest, rfl, here, later⟩ := iterated
    rcases List.mem_append.mp member with early | late
    · exact ⟨_, _, _, here, early⟩
    · exact ih later late

theorem Matches.mayTake {regex : Regex} {c : Char} (matched : Matches alphabet regex folded before text after)
    (member : c ∈ text) (nonspace : alphabet.isSpace c = false) : regex.mayTake folded c = true := by
  induction regex generalizing folded before text after with
  | empty =>
    obtain rfl := matched
    exact absurd member List.not_mem_nil
  | char c =>
    obtain ⟨d, rfl, same⟩ := matched
    exact List.mem_singleton.mp member ▸ same
  | cls members =>
    obtain ⟨d, rfl, inside⟩ := matched
    obtain rfl := List.mem_singleton.mp member
    rwa [alphabet.contains_of_nonspace nonspace] at inside
  | seq first second ihFirst ihSecond =>
    obtain ⟨left, right, rfl, here, there⟩ := matched
    apply Bool.or_eq_true_iff.mpr
    exact (List.mem_append.mp member).imp (ihFirst here) (ihSecond there)
  | alt first second ihFirst ihSecond =>
    apply Bool.or_eq_true_iff.mpr
    exact matched.imp (fun left => ihFirst left member) fun right => ihSecond right member
  | rep least most greedy body ih =>
    obtain ⟨n, _, _, iterated⟩ := matched
    obtain ⟨_, _, _, matched', member'⟩ := iterated.exists_mem member
    exact ih matched' member'
  | wordBoundary =>
    obtain ⟨rfl, _⟩ := matched
    exact absurd member List.not_mem_nil
  | caseInsensitive body ih => exact ih matched member

/-- Whether every match has a character other than the given ones, none of which is white space. -/
def mustLeave (chars : List Char) : Regex → Bool → Bool
  | empty, _ => false
  | char c, folded => chars.all fun d => !sameChar folded c d
  | cls members, folded => chars.all fun d => !(members.negated != listed folded members d)
  | seq first second, folded => mustLeave chars first folded || mustLeave chars second folded
  | alt first second, folded => mustLeave chars first folded && mustLeave chars second folded
  | rep least _ _ body, folded => decide (0 < least) && mustLeave chars body folded
  | wordBoundary, _ => false
  | caseInsensitive body, _ => mustLeave chars body true

theorem Matches.exists_notMem {regex : Regex} {chars : List Char} (matched : Matches alphabet regex folded before text after)
    (leaves : regex.mustLeave chars folded = true) (nonspace : ∀ c ∈ chars, alphabet.isSpace c = false) :
    ∃ c ∈ text, c ∉ chars := by
  induction regex generalizing folded before text after with
  | empty => exact absurd leaves Bool.false_ne_true
  | char c =>
    obtain ⟨d, rfl, same⟩ := matched
    refine ⟨d, List.mem_singleton_self d, fun member => ?_⟩
    simpa [same] using List.all_eq_true.mp leaves d member
  | cls members =>
    obtain ⟨d, rfl, inside⟩ := matched
    refine ⟨d, List.mem_singleton_self d, fun member => ?_⟩
    rw [alphabet.contains_of_nonspace (nonspace d member)] at inside
    have outside := List.all_eq_true.mp leaves d member
    rw [inside] at outside
    exact absurd outside Bool.false_ne_true
  | seq first second ihFirst ihSecond =>
    obtain ⟨left, right, rfl, here, there⟩ := matched
    rcases Bool.or_eq_true_iff.mp leaves with inLeft | inRight
    · obtain ⟨c, member, outside⟩ := ihFirst here inLeft
      exact ⟨c, List.mem_append_left _ member, outside⟩
    · obtain ⟨c, member, outside⟩ := ihSecond there inRight
      exact ⟨c, List.mem_append_right _ member, outside⟩
  | alt first second ihFirst ihSecond =>
    obtain ⟨leaves, leaves'⟩ := Bool.and_eq_true_iff.mp leaves
    rcases matched with left | right
    · exact ihFirst left leaves
    · exact ihSecond right leaves'
  | rep least most greedy body ih =>
    obtain ⟨n, enough, _, iterated⟩ := matched
    obtain ⟨positive, leaves⟩ := Bool.and_eq_true_iff.mp leaves
    cases n with
    | zero =>
      have positive := of_decide_eq_true positive
      omega
    | succ n =>
      obtain ⟨first, rest, rfl, here, _⟩ := iterated
      obtain ⟨c, member, outside⟩ := ih here leaves
      exact ⟨c, List.mem_append_left _ member, outside⟩
  | wordBoundary => exact absurd leaves Bool.false_ne_true
  | caseInsensitive body ih => exact ih matched leaves

/-- Every match begins with a character that has the property. -/
def Starts (P : Char → Prop) : Regex → Prop
  | char c => P c
  | seq first _ => Starts P first
  | alt first second => Starts P first ∧ Starts P second
  | _ => False

theorem Matches.starts {P : Char → Prop} {regex : Regex} (matched : Matches alphabet regex false before text after)
    (starts : regex.Starts P) : ∃ c rest, text = c :: rest ∧ P c := by
  induction regex generalizing before text after with
  | char c =>
    obtain ⟨d, rfl, same⟩ := matched
    exact ⟨d, [], rfl, of_decide_eq_true same ▸ starts⟩
  | seq first second ihFirst =>
    obtain ⟨left, right, rfl, here, _⟩ := matched
    obtain ⟨c, rest, rfl, holds⟩ := ihFirst here starts
    exact ⟨c, rest ++ right, rfl, holds⟩
  | alt first second ihFirst ihSecond =>
    rcases matched with left | right
    · exact ihFirst left starts.1
    · exact ihSecond right starts.2
  | empty => exact starts.elim
  | cls members => exact starts.elim
  | rep least most greedy body => exact starts.elim
  | wordBoundary => exact starts.elim
  | caseInsensitive body => exact starts.elim

end Characters

end Regex
