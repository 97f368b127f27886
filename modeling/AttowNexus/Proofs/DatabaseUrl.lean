import AttowNexus.Library.Listing
import AttowNexus.Proofs.Patterns

/-! # The pattern for passwords in database URLs

A match is a scheme after a word boundary, a separator, and a login that holds no white space and ends with the first
`@` of its password. A URL put in place of a marker ends with an `@` too, so a login that reached over the marker
reached into that URL before, and the match would have begun further left.
-/

namespace AttowNexus

open Regex

variable {alphabet : Alphabet} {before before' text after out : List Char}

section Shape

def schemeStart : CharClass := ⟨[('a', 'z')], false, false⟩
def schemeRest : CharClass := ⟨[('a', 'z'), ('0', '9'), ('+', '+'), ('.', '.'), ('-', '-')], false, false⟩
def userChars : CharClass := ⟨[(':', ':'), ('/', '/')], true, true⟩
def passwordChars : CharClass := ⟨[('@', '@')], true, true⟩

theorem databaseUrlPassword_eq : databaseUrlPassword = caseInsensitive
    (all [wordBoundary, cls schemeStart, star (cls schemeRest), literal "://", plus (cls userChars), literal ":",
      plus (cls passwordChars), literal "@"]) := rfl

def IsUser (alphabet : Alphabet) (text : List Char) : Prop :=
  text ≠ [] ∧ ∀ c ∈ text, alphabet.isSpace c = false ∧ c ∉ [':', '/']

def IsPassword (alphabet : Alphabet) (text : List Char) : Prop :=
  text ≠ [] ∧ ∀ c ∈ text, alphabet.isSpace c = false ∧ c ≠ '@'

/-- `user:password@` -/
def IsLogin (alphabet : Alphabet) (text : List Char) : Prop :=
  ∃ user password, text = user ++ ':' :: (password ++ ['@']) ∧ IsUser alphabet user ∧ IsPassword alphabet password

def IsScheme (alphabet : Alphabet) (text : List Char) : Prop :=
  ∃ c rest, text = c :: rest ∧ alphabet.contains true schemeStart c = true ∧
    ∀ d ∈ rest, alphabet.contains true schemeRest d = true

/-- A scheme has letters, digits and three signs, so no character that ends one of the parts. -/
theorem schemeRest_char {c : Char} (inside : alphabet.contains true schemeRest c = true) :
    alphabet.isSpace c = false ∧ c ∉ [':', '/', '@', '[', ']'] := by
  have fits : listed true schemeRest c = true := by rwa [schemeRest, alphabet.contains_ranges] at inside
  rcases folding_of_listed (by decide) fits with ascii | rfl | rfl
  · have small := ascii_forall (P := fun c => listed true schemeRest c = true →
      (c = ' ' || (9 ≤ c.toNat && c.toNat ≤ 13)) = false ∧ c ∉ [':', '/', '@', '[', ']']) (by decide) ascii fits
    exact ⟨(alphabet.space_ascii c ascii).trans small.1, small.2⟩
  · exact ⟨alphabet.space_folding.1, by decide⟩
  · exact ⟨alphabet.space_folding.2, by decide⟩

theorem schemeStart_char {c : Char} (inside : alphabet.contains true schemeStart c = true) :
    alphabet.isWord c = true ∧ alphabet.contains true schemeRest c = true := by
  have fits : listed true schemeStart c = true := by rwa [schemeStart, alphabet.contains_ranges] at inside
  rw [schemeRest, alphabet.contains_ranges]
  rcases folding_of_listed (by decide) fits with ascii | rfl | rfl
  · have small := ascii_forall (P := fun c => listed true schemeStart c = true →
      (c.isAlphanum || c = '_') = true ∧ listed true schemeRest c = true) (by decide) ascii fits
    exact ⟨(alphabet.word_ascii c ascii).trans small.1, small.2⟩
  · exact ⟨alphabet.word_folding.1, by decide⟩
  · exact ⟨alphabet.word_folding.2, by decide⟩

theorem IsScheme.chars {scheme : List Char} (isScheme : IsScheme alphabet scheme) :
    ∀ c ∈ scheme, alphabet.isSpace c = false ∧ c ∉ [':', '/', '@', '[', ']'] := by
  obtain ⟨c, rest, rfl, starts, goes⟩ := isScheme
  refine List.forall_mem_cons.mpr ⟨schemeRest_char (schemeStart_char starts).2, fun d member => ?_⟩
  exact schemeRest_char (goes d member)

/-- The two negated classes hold what is listed in neither way. -/
theorem contains_userChars {c : Char} :
    alphabet.contains true userChars c = true ↔ alphabet.isSpace c = false ∧ c ∉ [':', '/'] := by
  rw [userChars, alphabet.contains_neither]
  refine and_congr_right fun _ => not_congr ⟨fun fits => ?_, fun member => ?_⟩
  · rcases folding_of_listed (by decide) fits with ascii | rfl | rfl
    · exact ascii_forall (P := fun c => listed true userChars c = true → c ∈ [':', '/']) (by decide) ascii fits
    · exact absurd fits (by decide)
    · exact absurd fits (by decide)
  · exact forall_mem_of_all (P := fun c => listed true userChars c = true) (by decide) c member

theorem contains_passwordChars {c : Char} :
    alphabet.contains true passwordChars c = true ↔ alphabet.isSpace c = false ∧ c ≠ '@' := by
  rw [passwordChars, alphabet.contains_neither]
  refine and_congr_right fun _ => not_congr ⟨fun fits => ?_, ?_⟩
  · rcases folding_of_listed (by decide) fits with ascii | rfl | rfl
    · exact ascii_forall (P := fun c => listed true passwordChars c = true → c = '@') (by decide) ascii fits
    · exact absurd fits (by decide)
    · exact absurd fits (by decide)
  · rintro rfl
    decide

/-- No other character folds to one of the signs of the word. -/
theorem signs_alone {word : String} (signs : (word.toList.all fun c => decide (c ∈ [':', '/', '@'])) = true) :
    ∀ c ∈ word.toList, ∀ d, sameChar true c d = true → c = d := by
  have checked : ∀ c ∈ [':', '/', '@'], (fold c).toNat < 128 ∧ (fold c ≠ 's' ∧ fold c ≠ 'k') ∧
      ∀ n : Fin 128, fold c = fold (Char.ofNat n) → c = Char.ofNat n := forall_mem_of_all (by decide)
  intro c member d same
  obtain ⟨ascii, special, plain⟩ := checked c (forall_mem_of_all signs c member)
  exact eq_of_sameChar ascii same special plain

theorem matches_databaseUrl : Matches alphabet databaseUrlPassword false before text after ↔
    ∃ scheme login, text = scheme ++ ("://".toList ++ login) ∧ alphabet.Boundary before (text ++ after) ∧
      IsScheme alphabet scheme ∧ IsLogin alphabet login := by
  rw [databaseUrlPassword_eq]
  constructor
  · rintro ⟨_, _, rfl, ⟨rfl, boundary⟩, _, _, rfl, ⟨c, rfl, starts⟩, rest, _, rfl, goes, _, _, rfl, isSeparator,
      user, _, rfl, isUser, _, _, rfl, isColon, password, _, rfl, isPassword, _, _, rfl, isAt, rfl⟩
    obtain rfl := (matches_literal (signs_alone (by decide))).mp isSeparator
    obtain rfl := (matches_literal (signs_alone (by decide))).mp isColon
    obtain rfl := (matches_literal (signs_alone (by decide))).mp isAt
    obtain ⟨userFull, users⟩ := matches_plus_cls.1 isUser
    obtain ⟨passwordFull, passwords⟩ := matches_plus_cls.1 isPassword
    refine ⟨c :: rest, user ++ ':' :: (password ++ ['@']), by simp, boundary,
      ⟨c, rest, rfl, starts, (matches_rep_cls.1 goes).2.2⟩, user, password, rfl, ⟨userFull, ?_⟩, passwordFull, ?_⟩
    · exact fun d member => contains_userChars.1 (users d member)
    · exact fun d member => contains_passwordChars.1 (passwords d member)
  · rintro ⟨_, _, rfl, boundary, ⟨c, rest, rfl, starts, goes⟩, user, password, rfl, ⟨userFull, users⟩, passwordFull, passwords⟩
    refine ⟨[], _, rfl, ⟨rfl, boundary⟩, [c], _, rfl, ⟨c, rfl, starts⟩, rest, _, rfl, ?_, "://".toList, _, rfl,
      (matches_literal (signs_alone (by decide))).mpr rfl, user, _, rfl, ?_, [':'], _, rfl, (matches_literal (signs_alone (by decide))).mpr rfl, password, _, rfl,
      ?_, ['@'], [], rfl, (matches_literal (signs_alone (by decide))).mpr rfl, rfl⟩
    · exact matches_rep_cls.2 ⟨Nat.zero_le _, nofun, goes⟩
    · exact matches_plus_cls.2 ⟨userFull, fun d member => contains_userChars.2 (users d member)⟩
    · exact matches_plus_cls.2 ⟨passwordFull, fun d member => contains_passwordChars.2 (passwords d member)⟩

end Shape

section Logins

/-- What is left standing of a password goes on up to the first `@`. -/
theorem exists_password {rest : List Char} (standing : ∀ c ∈ rest, alphabet.isSpace c = false ∧ c ≠ '@')
    (nonspace : ∀ c ∈ text, alphabet.isSpace c = false) (ends : '@' ∈ text) (starts : text.head? ≠ some '@') :
    ∃ password more, rest ++ text = password ++ '@' :: more ∧ IsPassword alphabet password := by
  obtain ⟨password, more, rfl, first⟩ := List.eq_append_cons_of_mem ends
  refine ⟨rest ++ password, more, (List.append_assoc ..).symm, ?_, List.forall_mem_append.mpr ⟨standing, ?_⟩⟩
  · intro bare
    rw [(List.append_eq_nil_iff.mp bare).2] at starts
    exact starts rfl
  · refine fun c member => ⟨nonspace c (List.mem_append_left _ member), ?_⟩
    rintro rfl
    exact first member

theorem IsLogin.chars {login : List Char} (isLogin : IsLogin alphabet login) :
    (∀ c ∈ login, alphabet.isSpace c = false) ∧ '@' ∈ login := by
  obtain ⟨user, password, rfl, ⟨_, users⟩, _, passwords⟩ := isLogin
  refine ⟨List.forall_mem_append.mpr ⟨fun c member => (users c member).1, List.forall_mem_cons.mpr ⟨?_,
    List.forall_mem_append.mpr ⟨fun c member => (passwords c member).1, List.forall_mem_singleton.mpr ?_⟩⟩⟩, by simp⟩
  · exact alphabet.space_ascii ':' (by decide)
  · exact alphabet.space_ascii '@' (by decide)

theorem separator_nonspace : ∀ c ∈ "://".toList, alphabet.isSpace c = false := alphabet.isSpace_of_all (by decide)

/-- A login of which a URL takes some end is still one, up to some `@` of that URL. -/
theorem IsLogin.extend {login login' scheme rest marked right : List Char} (after : List Char) (isLogin : IsLogin alphabet login)
    (split : login ++ right = rest ++ marked) (isScheme : IsScheme alphabet scheme) (isLogin' : IsLogin alphabet login') :
    ∃ extended more, rest ++ (scheme ++ ("://".toList ++ login') ++ after) = extended ++ more ∧ IsLogin alphabet extended := by
  obtain ⟨user, password, rfl, ⟨userFull, users⟩, passwordFull, passwords⟩ := isLogin
  have schemes := isScheme.chars
  obtain ⟨nonspace, ends⟩ := isLogin'.chars
  obtain ⟨c, schemeMore, rfl, _⟩ := isScheme
  have first : c ≠ '@' := by
    rintro rfl
    exact (schemes '@' List.mem_cons_self).2 (by decide)
  have url : ∀ d ∈ c :: schemeMore ++ ("://".toList ++ login'), alphabet.isSpace d = false :=
    List.forall_mem_append.mpr ⟨fun d member => (schemes d member).1, List.forall_mem_append.mpr ⟨separator_nonspace, nonspace⟩⟩
  have whole : user ++ ':' :: (password ++ '@' :: right) = rest ++ marked := by simpa using split
  rcases Listing.append_cons_cases whole with ⟨rest, rfl, within⟩ | ⟨taken, rfl⟩
  · rcases Listing.append_cons_cases within with ⟨rest, rfl, _⟩ | ⟨taken, rfl⟩
    · -- the login is left standing
      refine ⟨user ++ ':' :: (password ++ ['@']), rest ++ (c :: schemeMore ++ ("://".toList ++ login') ++ after), by simp, ?_⟩
      exact ⟨user, password, rfl, ⟨userFull, users⟩, passwordFull, passwords⟩
    · -- the password goes on with the URL
      obtain ⟨password', more, found, isPassword⟩ := exists_password
        (fun d member => passwords d (List.mem_append_left _ member)) url (by simp [ends]) (by simpa using first)
      refine ⟨user ++ ':' :: (password' ++ ['@']), more ++ after, ?_, user, password', rfl, ⟨userFull, users⟩, isPassword⟩
      have found := congrArg (user ++ ':' :: · ++ after) found
      simpa using found
  · -- the user goes on with the scheme, and the password starts in the separator
    have slashes : ∀ d ∈ "//".toList ++ login', alphabet.isSpace d = false :=
      List.forall_mem_append.mpr ⟨fun d member => separator_nonspace d (List.mem_cons_of_mem _ member), nonspace⟩
    obtain ⟨password', more, found, isPassword⟩ :=
      exists_password (List.forall_mem_nil _) slashes (by simp [ends]) (by simp)
    have isUser : IsUser alphabet (rest ++ (c :: schemeMore)) := by
      refine ⟨by simp, List.forall_mem_append.mpr ⟨fun d member => users d (List.mem_append_left _ member), fun d member => ?_⟩⟩
      refine ⟨(schemes d member).1, fun sign => (schemes d member).2 ?_⟩
      exact List.mem_append_left ['@', '[', ']'] sign
    refine ⟨rest ++ (c :: schemeMore) ++ ':' :: (password' ++ ['@']), more ++ after, ?_, _, password', rfl, isUser, isPassword⟩
    have found := congrArg (rest ++ (c :: schemeMore) ++ ':' :: · ++ after) found
    simpa using found

end Logins

section Survival

theorem databaseUrlPassword_framed : Framed alphabet databaseUrlPassword := by
  intro before text after matched
  obtain ⟨_, _, rfl, boundary, ⟨c, rest, rfl, starts, _⟩, user, password, rfl, _, _⟩ := matches_databaseUrl.1 matched
  refine ⟨(Bool.not_eq_true _).mp fun last => boundary ?_, fun _ => ?_⟩
  · rw [last, List.cons_append, List.cons_append, List.head?_cons, Alphabet.wordAt, (schemeStart_char starts).1]
  · have ends : before ++ (c :: rest ++ ("://".toList ++ (user ++ ':' :: (password ++ ['@'])))) =
        before ++ (c :: rest ++ ("://".toList ++ (user ++ ':' :: password))) ++ ['@'] := by simp
    rw [ends, List.getLast?_concat]
    exact alphabet.word_ascii '@' (by decide)

theorem solid_of_scheme {scheme : List Char} (isScheme : IsScheme alphabet scheme) :
    Solid '[' ']' "REDACTED".toList (scheme ++ "://".toList) where
  opening member := by
    rcases List.mem_append.mp member with inScheme | inSeparator
    · exact (isScheme.chars '[' inScheme).2 (by decide)
    · exact absurd inSeparator (by decide)
  closing member := by
    rcases List.mem_append.mp member with inScheme | inSeparator
    · exact (isScheme.chars ']' inScheme).2 (by decide)
    · exact absurd inSeparator (by decide)
  foreign := ⟨':', List.mem_append_right _ (by decide), by decide⟩

/-- Replacing the URLs leaves none. -/
theorem databaseUrlPassword_quiet
    (replaced : Replaced alphabet databaseUrlPassword ('[' :: ("REDACTED".toList ++ [']'])) before text out)
    (edge : Edge alphabet before before' text) : Quiet alphabet databaseUrlPassword before' out [] := by
  induction replaced generalizing before' with
  | @rest before text quiet =>
    rintro left right found rest rfl nonempty split matched
    obtain ⟨scheme, login, shape, boundary, isScheme, isLogin⟩ := matches_databaseUrl.1 matched
    have full : found ≠ [] := by
      rw [shape, ← List.append_assoc]
      exact List.append_ne_nil_of_left_ne_nil (solid_of_scheme isScheme).ne_nil _
    have edge' : Edge alphabet before before' (left ++ (found ++ rest)) := by
      rwa [← split, List.append_nil]
    exact quiet left right found rest rfl nonempty split
      (matches_databaseUrl.2 ⟨scheme, login, shape, edge'.starts full boundary, isScheme, isLogin⟩)
  | @hit before gap url after out quiet nonempty matched later ih =>
    rintro left right found rest split _ whole found'
    obtain ⟨scheme, login, rfl, boundary, isScheme, isLogin⟩ := matches_databaseUrl.1 found'
    have full := (solid_of_scheme isScheme).ne_nil
    have placed : gap ++ (('[' :: ("REDACTED".toList ++ [']'])) ++ out) =
        left ++ ((scheme ++ "://".toList) ++ (login ++ rest)) := by
      rw [split, ← List.append_nil right, whole]
      simp
    rcases (solid_of_scheme isScheme).cases placed with ⟨tail, rfl, reached⟩ | ⟨skipped, rfl, rfl⟩
    · -- the scheme is left standing, so a match began there before
      obtain ⟨scheme', login', rfl, _, isScheme', isLogin'⟩ := matches_databaseUrl.1 matched
      obtain ⟨extended, more, same, isExtended⟩ := isLogin.extend after reached isScheme' isLogin'
      rw [List.append_assoc, List.append_assoc (scheme ++ _)] at edge
      have boundary : alphabet.Boundary (before' ++ left) ((scheme ++ "://".toList) ++ (login ++ rest)) := by
        rw [List.append_assoc]
        rwa [List.append_assoc, List.append_assoc] at boundary
      have kept : alphabet.Boundary (before ++ left) ((scheme ++ "://".toList) ++ (extended ++ more)) :=
        edge.starts full boundary
      refine quiet left ((scheme ++ "://".toList) ++ tail) (scheme ++ ("://".toList ++ extended)) more rfl
        (fun bare => full (List.append_eq_nil_iff.mp bare).1) ?_ (matches_databaseUrl.2 ⟨scheme, extended, rfl, ?_, isScheme, isExtended⟩)
      · rw [List.append_assoc _ tail, same]
        simp
      · rwa [← List.append_assoc scheme, List.append_assoc (scheme ++ _)]
    · have edge' : Edge alphabet (before ++ gap ++ url) (before' ++ gap ++ ('[' :: ("REDACTED".toList ++ [']']))) after := by
        refine .inr ⟨?_, (databaseUrlPassword_framed _ _ _ matched).2⟩
        rw [List.getLast?_append_of_ne_nil _ (List.cons_ne_nil _ _), ← List.cons_append, List.getLast?_concat]
        exact alphabet.word_ascii ']' (by decide)
      refine ih edge' skipped ((scheme ++ "://".toList) ++ (login ++ rest)) (scheme ++ ("://".toList ++ login)) rest rfl
        (fun bare => full (List.append_eq_nil_iff.mp bare).1) (by simp) ?_
      simpa using found'

theorem databaseUrlPassword_survives :
    Survives alphabet redactionMarker.toList databaseUrlPassword databaseUrlPassword := by
  intro text out replaced _
  have full : ∀ before text after, Matches alphabet databaseUrlPassword false before text after → text ≠ [] := by
    intro before text after matched
    obtain ⟨_, _, rfl, _, ⟨c, rest, rfl, _⟩, _⟩ := matches_databaseUrl.1 matched
    exact List.append_ne_nil_of_left_ne_nil (List.cons_ne_nil _ _) _
  rw [redactionMarker_eq] at replaced
  exact (free_iff_quiet full).mpr (databaseUrlPassword_quiet replaced (.inl rfl))

end Survival

end AttowNexus
