import AttowNexus.Library.Regex.Agreement
import AttowNexus.Proofs.RedactedText
import AttowNexus.Proofs.SdkRedaction

/-! # Texts on which the engines agree

The patterns ask for white space in three places and for word boundaries around tokens and before a scheme. A text
whose white space is the same to two engines, and in which they agree on the characters next to what could be a token
or a scheme, goes through the patterns in the same way, and stays such a text.
-/

namespace AttowNexus

open Regex

/-- The beginning of a URL -/
def schemePrefix : Regex := caseInsensitive (all [cls schemeStart, star (cls schemeRest), literal "://"])

/-- Two engines treat the text in the same way. -/
structure Settled (first second : Alphabet) (text : List Char) : Prop where
  ordinary : ∀ c ∈ text, Ordinary c
  spaces : SameSpace first second text
  tokens : ∀ parts ∈ tokenParts, Around first (all parts)
    (fun last next => SameWord first second last ∧ SameWord first second next) [] text
  schemes : Around first schemePrefix (fun last _ => SameWord first second last) [] text

variable {first second : Alphabet} {text : List Char}

section Stages

theorem splits_token_congr {parts : List Regex} {left right : List Char} (member : parts ∈ tokenParts)
    (settled : Settled first second (left ++ right)) :
    splits first (all (wordBoundary :: (parts ++ [wordBoundary]))) false left right =
      splits second (all (wordBoundary :: (parts ++ [wordBoundary]))) false left right := by
  have checked : ∀ parts ∈ tokenParts, (all parts).blind = true ∧ (all parts).consumes = true ∧
      (all parts).takesAscii = true := by decide
  obtain ⟨blind, consumes, ascii⟩ := checked parts member
  have around : ∀ taken rest, (taken, rest) ∈ splits first (all parts) false left right →
      (SameWord first second left.getLast? ∧ SameWord first second rest.head?) ∧
        (SameWord first second right.head? ∧ ∀ c ∈ taken, SameWord first second (some c)) := by
    intro taken rest found
    obtain ⟨rfl, matched⟩ := splits_sound found
    have own : ∀ c ∈ taken, SameWord first second (some c) := fun c inside =>
      sameWord_of_folding (matched.folding ascii inside)
    exact ⟨settled.tokens parts member left taken rest rfl (matched.transfer (.inl blind)),
      sameWord_head? (matched.ne_nil consumes) own, own⟩
  refine splits_opened_congr (splits_closed_congr consumes (splits_congr blind settled.spaces.right) ?_) ?_
  · intro taken rest found
    obtain ⟨⟨_, next⟩, _, own⟩ := around taken rest found
    exact ⟨next, own⟩
  · intro taken rest found
    rw [splits_concat_wordBoundary] at found
    obtain ⟨⟨last, _⟩, start, _⟩ := around taken rest (List.mem_filter.mp found).1
    exact ⟨last, start⟩

theorem splits_databaseUrl_congr {left right : List Char} (settled : Settled first second (left ++ right)) :
    splits first databaseUrlPassword false left right = splits second databaseUrlPassword false left right := by
  rw [databaseUrlPassword_eq, splits, splits]
  refine splits_opened_congr (splits_congr (by decide) settled.spaces.right) fun taken rest found => ?_
  obtain ⟨rfl, matched⟩ := splits_sound found
  have whole : Matches first (all ([cls schemeStart, star (cls schemeRest), literal "://"] ++
      [plus (cls userChars), literal ":", plus (cls passwordChars), literal "@"])) true left taken rest := matched
  obtain ⟨scheme, login, rfl, starts, _⟩ := matches_all_append.1 whole
  have matched' : Matches first schemePrefix false [] scheme [] := starts.transfer (.inl (by decide))
  have own : ∀ c ∈ scheme, SameWord first second (some c) := fun c inside =>
    sameWord_of_folding (matched'.folding (by decide) inside)
  refine ⟨?_, ?_⟩
  · have held := settled.schemes left scheme (login ++ rest) (by rw [List.append_assoc]) matched'
    exact held
  · rw [List.append_assoc]
    exact sameWord_head? (matched'.ne_nil (by decide)) own

/-- One pattern: both engines put the marker in the same places. -/
theorem replaceAll_settled {regex : Regex} (member : regex ∈ redactionPatterns.map (·.2))
    (settled : Settled first second text) :
    replaceAll first regex redactionMarker.toList text = replaceAll second regex redactionMarker.toList text := by
  refine replaceAll_congr fun left right split => ?_
  subst split
  rw [redactionPatterns_eq, tokens_eq, List.mem_append, List.mem_append] at member
  rcases member with wide | token | url
  · have blind : ∀ wide ∈ [bearerToken, pemBlock], wide.blind = true := by decide
    exact splits_congr (blind regex wide) settled.spaces.right
  · obtain ⟨parts, inside, rfl⟩ := List.mem_map.mp token
    exact splits_token_congr inside settled
  · obtain rfl := List.mem_singleton.mp url
    exact splits_databaseUrl_congr settled

/-- And the text is still one on which they agree. -/
theorem Settled.replaceAll {regex : Regex} (member : regex ∈ redactionPatterns.map (·.2))
    (settled : Settled first second text) : Settled first second (Regex.replaceAll first regex redactionMarker.toList text) := by
  obtain ⟨consumes, proper⟩ := redactionPatterns_checked regex member
  have replaced : Replaced first regex redactionMarker.toList [] text (Regex.replaceAll first regex redactionMarker.toList text) :=
    replaceAll_replaced consumes proper
  have bracket : ∀ c ∈ ['[', ']'], SameWord first second (some c) := by
    have ascii : ∀ c ∈ ['[', ']'], c.toNat < 128 := by decide
    exact fun c inside => sameWord_of_folding (.inl (ascii c inside))
  have opens := bracket '[' (by decide)
  have closes := bracket ']' (by decide)
  have marked : ∀ c ∈ redactionMarker.toList, Ordinary c ∧ c.toNat < 128 := by decide
  refine ⟨fun c inside => ?_, fun c inside => ?_, fun parts known => ?_, ?_⟩
  · exact (replaced.mem inside).elim (settled.ordinary c) fun own => (marked c own).1
  · refine (replaced.mem inside).elim (settled.spaces c) fun own => ?_
    rw [first.space_ascii c (marked c own).2, second.space_ascii c (marked c own).2]
  · have checked : ∀ parts ∈ tokenParts, (all parts).mayTake false '[' = false ∧ (all parts).mayTake false ']' = false ∧
        (all parts).mustLeave "REDACTED".toList false = true := by decide
    obtain ⟨noOpening, noClosing, leaves⟩ := checked parts known
    rw [redactionMarker_eq] at replaced ⊢
    exact replaced.around (fun _ => solid_of_checks noOpening noClosing leaves) (fun _ _ held => ⟨closes, held.2⟩)
      (fun _ _ held => ⟨held.1, opens⟩) (.inl rfl) (settled.tokens parts known)
  · rw [redactionMarker_eq] at replaced ⊢
    exact replaced.around (fun _ => solid_of_checks (by decide) (by decide) (by decide)) (fun _ _ _ => closes)
      (fun _ _ held => held) (.inl rfl) settled.schemes

end Stages

section Texts

/-- An engine that goes by these tables, wherever it has no rule of its own -/
def GoesBy (alphabet : Alphabet) (replace : Regex → String → String) : Prop :=
  ∀ regex ∈ redactionPatterns.map (·.2), ∀ text : String, (∀ c ∈ text.toList, Ordinary c) →
    replace regex text = String.ofList (replaceAll alphabet regex redactionMarker.toList text.toList)

/-- The whole list of patterns, for a text on which the engines agree -/
theorem foldl_settled {replace other : Regex → String → String} (goes : GoesBy first replace) (goes' : GoesBy second other)
    {text : String} (settled : Settled first second text.toList) :
    redactionPatterns.foldl (fun text pattern => replace pattern.2 text) text =
      redactionPatterns.foldl (fun text pattern => other pattern.2 text) text := by
  have passes : ∀ patterns : List (String × Regex), (∀ pattern ∈ patterns, pattern.2 ∈ redactionPatterns.map (·.2)) →
      ∀ text : String, Settled first second text.toList →
        patterns.foldl (fun text pattern => replace pattern.2 text) text =
          patterns.foldl (fun text pattern => other pattern.2 text) text := by
    intro patterns
    induction patterns with
    | nil => exact fun _ _ _ => rfl
    | cons pattern rest ih =>
      intro known text settled
      obtain ⟨here, known⟩ := List.forall_mem_cons.mp known
      have same : replace pattern.2 text = other pattern.2 text := by
        rw [goes pattern.2 here text settled.ordinary, goes' pattern.2 here text settled.ordinary,
          replaceAll_settled here settled]
      have later : Settled first second (replace pattern.2 text).toList := by
        rw [goes pattern.2 here text settled.ordinary, String.toList_ofList]
        exact settled.replaceAll here
      rw [List.foldl_cons, List.foldl_cons, ← same]
      exact ih known _ later
  exact passes redactionPatterns (fun _ member => List.mem_map_of_mem member) text settled

/-- Engines agree on ASCII. -/
theorem settled_of_ascii (ascii : ∀ c ∈ text, c.toNat < 128 ∧ Ordinary c) : Settled first second text := by
  have words : ∀ place : Option Char, (∀ c ∈ place, c ∈ text) → SameWord first second place := by
    intro place inside
    cases place with
    | none => rfl
    | some c => exact sameWord_of_folding (.inl (ascii c (inside c rfl)).1)
  have around : ∀ left middle right : List Char, text = left ++ (middle ++ right) →
      SameWord first second ([] ++ left).getLast? ∧ SameWord first second right.head? := by
    rintro left middle right rfl
    refine ⟨words _ fun c last => ?_, words _ fun c next => ?_⟩
    · exact List.mem_append_left _ (List.mem_of_getLast? last)
    · exact List.mem_append_right _ (List.mem_append_right _ (List.mem_of_head? next))
  refine ⟨fun c member => (ascii c member).2, fun c member => ?_, fun _ _ left middle right split _ => ?_,
    fun left middle right split _ => ?_⟩
  · rw [first.space_ascii c (ascii c member).1, second.space_ascii c (ascii c member).1]
  · exact around left middle right split
  · exact (around left middle right split).1

/-- Where nothing could be a token or a URL, only white space matters. -/
theorem settled_of_free (ordinary : ∀ c ∈ text, Ordinary c) (spaces : SameSpace first second text)
    (free : ∀ core ∈ schemePrefix :: tokenParts.map all, isFree first core text = true) : Settled first second text := by
  have checked : ∀ core ∈ schemePrefix :: tokenParts.map all, core.blind = true ∧ core.proper = true := by decide
  have none : ∀ core ∈ schemePrefix :: tokenParts.map all, ∀ P, Around first core P [] text := by
    intro core member P left middle right split matched
    obtain ⟨blind, proper⟩ := checked core member
    exact absurd (matched.transfer (.inl blind)) (free_of_isFree proper (free core member) left middle right split)
  exact ⟨ordinary, spaces, fun parts member => none _ (List.mem_cons_of_mem _ (List.mem_map_of_mem member)) _,
    none _ List.mem_cons_self _⟩

/-- The engine with these tables, and without rules of its own -/
def engineOf (alphabet : Alphabet) : RegexEngine where
  replace regex text := String.ofList (replaceAll alphabet regex redactionMarker.toList text.toList)
  onAscii regex member text ascii := by
    obtain ⟨consumes, proper⟩ := redactionPatterns_checked regex member
    have same : replaceAll alphabet regex redactionMarker.toList text.toList =
        replaceAll .ascii regex redactionMarker.toList text.toList :=
      replaceAll_settled member (settled_of_ascii ascii)
    rw [String.toList_ofList, same]
    exact replaceAll_replaced consumes proper
  marks regex member text := by
    obtain ⟨consumes, proper⟩ := redactionPatterns_checked regex member
    rw [String.toList_ofList]
    rcases (replaceAll_replaced consumes proper).free_or_marked (fun _ _ _ matched => matched.ne_nil consumes) with
      ⟨same, _⟩ | ⟨marked, _⟩
    · rw [same, String.ofList_toList]
      exact .inl rfl
    · exact .inr marked

theorem engineOf_goesBy (alphabet : Alphabet) : GoesBy alphabet (engineOf alphabet).replace := fun _ _ _ _ => rfl

end Texts

end AttowNexus
