import AttowNexus.Library.Regex.Replacement
import AttowNexus.Model.Redaction

/-! # The redaction patterns do not undo each other

None of the eight patterns can match across the marker, except the two that reach over arbitrary text; those begin
and end, or go on, in a way that gives a match in the text before. The five tokens and the database URL stand between
word boundaries, and the marker keeps those, so a text that went through all patterns matches none of them.
-/

namespace AttowNexus

open Regex

def bearerToken : Regex := redactionPatterns[0].2
def pemBlock : Regex := redactionPatterns[1].2
def awsAccessKey : Regex := redactionPatterns[2].2
def githubToken : Regex := redactionPatterns[3].2
def openaiToken : Regex := redactionPatterns[4].2
def anthropicToken : Regex := redactionPatterns[5].2
def jwt : Regex := redactionPatterns[6].2
def databaseUrlPassword : Regex := redactionPatterns[7].2

theorem redactionPatterns_eq : redactionPatterns.map (·.2) =
    [bearerToken, pemBlock] ++ ([awsAccessKey, githubToken, openaiToken, anthropicToken, jwt] ++ [databaseUrlPassword]) := rfl

theorem redactionMarker_eq : redactionMarker.toList = '[' :: ("REDACTED".toList ++ [']']) := by decide

variable {alphabet : Alphabet} {regex other : Regex} {before text after : List Char}

section Tokens

/-- A pattern that takes no bracket, and always something besides the letters of the marker. -/
theorem solid_of_checks (opens : regex.mayTake false '[' = false) (closes : regex.mayTake false ']' = false)
    (leaves : regex.mustLeave "REDACTED".toList false = true) (matched : Matches alphabet regex false before text after) :
    Solid '[' ']' "REDACTED".toList text where
  opening member := by
    have taken := matched.mayTake member (alphabet.space_ascii '[' (by decide))
    exact absurd (taken.symm.trans opens) nofun
  closing member := by
    have taken := matched.mayTake member (alphabet.space_ascii ']' (by decide))
    exact absurd (taken.symm.trans closes) nofun
  foreign := by
    exact matched.exists_notMem leaves (alphabet.isSpace_of_all (by decide))

theorem framed_of_bounded {parts : List Regex} (starts : (all parts).Starts fun c => alphabet.isWord c = true) :
    Framed alphabet (all (wordBoundary :: (parts ++ [wordBoundary]))) := by
  intro before text after matched
  obtain ⟨opens, inner, closes⟩ := matches_bounded.1 matched
  obtain ⟨c, rest, rfl, word⟩ := inner.starts starts
  refine ⟨?_, fun next => ?_⟩
  · refine (Bool.not_eq_true _).mp fun last => opens ?_
    rw [last, List.cons_append, List.head?_cons, Alphabet.wordAt, word]
  · refine (Bool.not_eq_true _).mp fun last => closes ?_
    rw [last, next]

theorem survives_of_solid
    (solid : ∀ before text after, Matches alphabet other false before text after → Solid '[' ']' "REDACTED".toList text)
    (context : other.blind = true ∨ Framed alphabet regex) : Survives alphabet redactionMarker.toList other regex := by
  intro text out replaced free
  have full : ∀ before text after, Matches alphabet other false before text after → text ≠ [] :=
    fun before text after matched => (solid before text after matched).ne_nil
  rw [redactionMarker_eq] at replaced
  rw [free_iff_quiet full] at free ⊢
  exact replaced.quiet_of_solid solid (alphabet.word_ascii '[' (by decide)) (alphabet.word_ascii ']' (by decide))
    (context.imp_right fun framed => ⟨framed, .inl rfl⟩) free

theorem bearerToken_survives (regex : Regex) : Survives alphabet redactionMarker.toList bearerToken regex :=
  survives_of_solid (fun _ _ _ => solid_of_checks (by decide) (by decide) (by decide)) (.inl rfl)

theorem tokens_survive (framed : Framed alphabet regex) :
    ∀ token ∈ [awsAccessKey, githubToken, openaiToken, anthropicToken, jwt],
      Survives alphabet redactionMarker.toList token regex := by
  have checked : ∀ token ∈ [awsAccessKey, githubToken, openaiToken, anthropicToken, jwt],
      token.mayTake false '[' = false ∧ token.mayTake false ']' = false ∧
        token.mustLeave "REDACTED".toList false = true := by decide
  intro token member
  obtain ⟨opens, closes, leaves⟩ := checked token member
  exact survives_of_solid (fun _ _ _ => solid_of_checks opens closes leaves) (.inr framed)

def tokenChars : List (Char × Char) := [('A', 'Z'), ('a', 'z'), ('0', '9'), ('_', '_'), ('-', '-')]

def keyParts : List Regex := [alt (literal "AKIA") (literal "ASIA"), exactly 16 (oneOf [('0', '9'), ('A', 'Z')])]

def githubParts : List Regex :=
  [literal "gh", oneOf [('p', 'p'), ('o', 'o'), ('u', 'u'), ('s', 's'), ('r', 'r')], literal "_",
    atLeast 20 (oneOf [('A', 'Z'), ('a', 'z'), ('0', '9'), ('_', '_')])]

def openaiParts : List Regex := [literal "sk-", atLeast 20 (oneOf tokenChars)]

def anthropicParts : List Regex := [literal "sk-ant-", atLeast 20 (oneOf tokenChars)]

def jwtParts : List Regex :=
  [literal "eyJ", plus (oneOf tokenChars), literal ".", plus (oneOf tokenChars), literal ".", plus (oneOf tokenChars)]

/-- What the tokens have between their word boundaries -/
def tokenParts : List (List Regex) := [keyParts, githubParts, openaiParts, anthropicParts, jwtParts]

theorem tokens_eq : [awsAccessKey, githubToken, openaiToken, anthropicToken, jwt] =
    tokenParts.map fun parts => all (wordBoundary :: (parts ++ [wordBoundary])) := rfl

/-- The tokens stand between word boundaries and begin with a letter. -/
theorem tokens_framed : ∀ token ∈ [awsAccessKey, githubToken, openaiToken, anthropicToken, jwt],
    Framed alphabet token := by
  have letter : ∀ c : Char, c.toNat < 128 → c.isAlphanum = true → alphabet.isWord c = true := by
    intro c ascii alphanumeric
    rw [alphabet.word_ascii c ascii, alphanumeric, Bool.true_or]
  rw [tokens_eq, List.forall_mem_map]
  simp only [tokenParts, List.forall_mem_cons, List.not_mem_nil, false_imp_iff, implies_true, and_true]
  refine ⟨framed_of_bounded ⟨?_, ?_⟩, framed_of_bounded ?_, framed_of_bounded ?_, framed_of_bounded ?_,
    framed_of_bounded ?_⟩
  · exact letter 'A' (by decide) (by decide)
  · exact letter 'A' (by decide) (by decide)
  · exact letter 'g' (by decide) (by decide)
  · exact letter 's' (by decide) (by decide)
  · exact letter 's' (by decide) (by decide)
  · exact letter 'e' (by decide) (by decide)

end Tokens

section Blocks

private def blockBegin : Regex := all [literal "-----BEGIN ", plus (oneOf [('A', 'Z'), (' ', ' ')]), literal "-----"]

private def blockEnd : Regex := all [literal "-----END ", plus (oneOf [('A', 'Z'), (' ', ' ')]), literal "-----"]

/-- A block is its first line, anything, and its last line, whatever stands around it. -/
theorem matches_pemBlock : Matches alphabet pemBlock false before text after ↔
    Spans (fun front => Matches alphabet blockBegin false [] front [])
      (fun back => Matches alphabet blockEnd false [] back []) text := by
  have shape : pemBlock = all ([literal "-----BEGIN ", plus (oneOf [('A', 'Z'), (' ', ' ')]), literal "-----"] ++
      (lazyPlus anyChar :: [literal "-----END ", plus (oneOf [('A', 'Z'), (' ', ' ')]), literal "-----"])) := rfl
  have anything : ∀ c, alphabet.contains false ⟨[], false, true⟩ c = true := fun _ => rfl
  rw [shape, matches_all_append]
  constructor
  · rintro ⟨front, _, rfl, isBegin, middle, back, rfl, filled, isEnd⟩
    exact ⟨front, middle, back, rfl, isBegin.transfer (.inl rfl), (matches_plus_cls.1 filled).1, isEnd.transfer (.inl rfl)⟩
  · rintro ⟨front, middle, back, rfl, isBegin, filled, isEnd⟩
    exact ⟨front, _, rfl, isBegin.transfer (.inl rfl), middle, back, rfl,
      matches_plus_cls.2 ⟨filled, fun c _ => anything c⟩, isEnd.transfer (.inl rfl)⟩

theorem pemBlock_survives (regex : Regex) : Survives alphabet redactionMarker.toList pemBlock regex := by
  intro text out replaced free
  have solidBegin : ∀ front, Matches alphabet blockBegin false [] front [] → Solid '[' ']' "REDACTED".toList front :=
    fun _ => solid_of_checks (by decide) (by decide) (by decide)
  have solidEnd : ∀ back, Matches alphabet blockEnd false [] back [] → Solid '[' ']' "REDACTED".toList back :=
    fun _ => solid_of_checks (by decide) (by decide) (by decide)
  have full : ∀ before text after, Matches alphabet pemBlock false before text after → text ≠ [] := by
    intro before text after matched bare
    obtain ⟨front, middle, back, rfl, _, filled, _⟩ := matches_pemBlock.1 matched
    exact filled (List.append_eq_nil_iff.mp (List.append_eq_nil_iff.mp bare).2).1
  rw [redactionMarker_eq] at replaced
  rw [free_iff_quiet full] at free ⊢
  exact replaced.quiet_of_spans (fun _ _ _ => matches_pemBlock) solidBegin solidEnd free

end Blocks

end AttowNexus
