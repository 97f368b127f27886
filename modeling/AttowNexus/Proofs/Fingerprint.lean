import AttowNexus.Library.Listing
import AttowNexus.Model.LoopDetector

/-! # What a fingerprint tells apart

A fingerprint is the hash of six parts joined with bars, the last of which is the debug form of the list of
parents. The debug form is injective, so two commits that differ in nothing but their parents have different
texts under the hash.
-/

namespace AttowNexus

variable {deps : External} {commit other : Commit}

/-- The text that is hashed. -/
def fingerprintText (deps : External) (commit : Commit) : String :=
  String.intercalate "|"
    [commit.objective, commit.summary, (commit.stateDelta.map (·.contentHash)).getD "",
      String.intercalate "," (commit.toolCalls.map (·.name)),
      String.intercalate "," (commit.toolResults.filterMap fun result => result.error.map (·.code)),
      debugStrings deps commit.parentCommitIds]

theorem fingerprint_eq : fingerprint deps commit = deps.blake3Hex (utf8Bytes (fingerprintText deps commit)) := rfl

/-- The hash takes no two of the given commits with different texts to the same fingerprint. -/
def HashesApart (deps : External) (commits : List Commit) : Prop :=
  ∀ c ∈ commits, ∀ d ∈ commits, fingerprint deps c = fingerprint deps d → fingerprintText deps c = fingerprintText deps d

theorem HashesApart.eq_iff {commits : List Commit} (apart : HashesApart deps commits) (left : commit ∈ commits)
    (right : other ∈ commits) :
    fingerprint deps commit = fingerprint deps other ↔ fingerprintText deps commit = fingerprintText deps other := by
  refine ⟨apart commit left other right, fun same => ?_⟩
  rw [fingerprint_eq, fingerprint_eq, same]

theorem hashesApart_of_nodup {commits : List Commit} (distinct : (commits.map (fingerprint deps)).Nodup) :
    HashesApart deps commits := by
  intro c left d right same
  rw [List.inj_on_of_nodup_map distinct left right same]

section Digits

private theorem digitChar_injective : ∀ {m n : ℕ}, m < 16 → n < 16 → m.digitChar = n.digitChar → m = n := by
  have small : ∀ m n : Fin 16, m.1.digitChar = n.1.digitChar → m = n := by decide
  intro m n below below' same
  exact congrArg Fin.val (small ⟨m, below⟩ ⟨n, below'⟩ same)

theorem toDigits_hex_injective : Function.Injective (Nat.toDigits 16) := by
  intro m
  induction m using Nat.strongRecOn with
  | ind m ih =>
    intro n same
    rw [Nat.toDigits_eq_if (by decide), Nat.toDigits_eq_if (n := n) (by decide)] at same
    split_ifs at same with first second second
    · exact digitChar_injective first second (List.cons.inj same).1
    · exact absurd (List.append_eq_singleton_iff.mp same.symm) (by simp)
    · exact absurd (List.append_eq_singleton_iff.mp same) (by simp)
    · obtain ⟨high, low⟩ := List.append_inj' same rfl
      have quotients := ih (m / 16) (by omega) high
      have remainders := digitChar_injective (Nat.mod_lt m (by decide)) (Nat.mod_lt n (by decide)) (List.cons.inj low).1
      omega

/-- A character that is no digit is in no number. -/
theorem notMem_toDigits {c : Char} (foreign : ∀ n, Nat.digitChar n ≠ c) (n : ℕ) : c ∉ Nat.toDigits 16 n := by
  induction n using Nat.strongRecOn with
  | ind n ih =>
    rw [Nat.toDigits_eq_if (by decide)]
    split_ifs with small
    · exact fun member => foreign _ (List.mem_singleton.mp member).symm
    · intro member
      rcases List.mem_append.mp member with high | low
      · exact ih (n / 16) (by omega) high
      · exact foreign _ (List.mem_singleton.mp low).symm

theorem brace_notMem_toDigits (n : ℕ) : '\x7d' ∉ Nat.toDigits 16 n :=
  notMem_toDigits (fun _ => Nat.digitChar_ne _ (by decide)) n

end Digits

section DebugForm

/-- The character that a one-letter escape stands for. -/
private def escapedBy (letter : Char) : Char :=
  if letter = '0' then Char.ofNat 0
  else if letter = 't' then Char.ofNat 9
  else if letter = 'n' then Char.ofNat 10
  else if letter = 'r' then Char.ofNat 13
  else letter

/-- A character is written as a one-letter escape, as its number, or as itself. -/
theorem debugChar_cases (deps : External) (c : Char) :
    (∃ letter, (debugChar deps c).toList = ['\\', letter] ∧ letter ≠ 'u' ∧ c = escapedBy letter) ∨
    (debugChar deps c).toList = '\\' :: 'u' :: '\x7b' :: Nat.toDigits 16 c.toNat ++ ['\x7d'] ∨
    ((debugChar deps c).toList = [c] ∧ c ≠ '\\' ∧ c ≠ '"') := by
  have number : ∀ {n : ℕ}, c.toNat = n → c = Char.ofNat n := fun same => same ▸ (Char.ofNat_toNat c).symm
  rw [debugChar]
  split_ifs with zero tab newline carriage quote backslash escaped
  · exact .inl ⟨'0', by decide, by decide, number zero⟩
  · exact .inl ⟨'t', by decide, by decide, number tab⟩
  · exact .inl ⟨'n', by decide, by decide, number newline⟩
  · exact .inl ⟨'r', by decide, by decide, number carriage⟩
  · exact .inl ⟨'"', by decide, by decide, number quote⟩
  · exact .inl ⟨'\\', by decide, by decide, number backslash⟩
  · refine .inr (.inl ?_)
    simp
  · refine .inr (.inr ⟨String.toList_singleton c, ?_, ?_⟩)
    · rintro rfl
      exact backslash (by decide)
    · rintro rfl
      exact quote (by decide)

theorem debugChar_prefixFree (deps : External) : Listing.PrefixFree fun c => (debugChar deps c).toList := by
  intro a b x y same
  simp only at same
  rcases debugChar_cases deps a with ⟨letter, form, plain, decoded⟩ | form | ⟨form, unescaped, -⟩ <;>
    rcases debugChar_cases deps b with ⟨letter', form', plain', decoded'⟩ | form' | ⟨form', unescaped', -⟩ <;>
    rw [form, form'] at same <;> simp only [List.cons_append, List.nil_append, List.append_assoc, List.cons.injEq] at same
  · exact ⟨decoded.trans (same.2.1 ▸ decoded'.symm), same.2.2⟩
  · exact absurd same.2.1 plain
  · exact absurd same.1.symm unescaped'
  · exact absurd same.2.1.symm plain'
  · obtain ⟨digits, tails⟩ := Listing.eq_of_append_separator_eq (brace_notMem_toDigits _) (brace_notMem_toDigits _)
      same.2.2.2
    exact ⟨Char.toNat_inj.mp (toDigits_hex_injective digits), tails⟩
  · exact absurd same.1.symm unescaped'
  · exact absurd same.1 unescaped
  · exact absurd same.1 unescaped
  · exact same

theorem debugChar_ne_quote (deps : External) (c : Char) (x y : List Char) :
    (debugChar deps c).toList ++ x ≠ '"' :: y := by
  rcases debugChar_cases deps c with ⟨letter, form, -, -⟩ | form | ⟨form, -, quoted⟩
  · rw [form]
    exact fun same => absurd (List.cons.inj same).1 (by decide)
  · rw [form]
    exact fun same => absurd (List.cons.inj same).1 (by decide)
  · rw [form]
    exact fun same => quoted (List.cons.inj same).1

/-- The quoted texts after the first one, up to the closing bracket. -/
private def debugTail (deps : External) : List String → List Char
  | [] => [']']
  | text :: rest => ',' :: ' ' :: '"' :: (text.toList.flatMap fun c => (debugChar deps c).toList) ++ '"' :: debugTail deps rest

private theorem debugTail_injective (deps : External) : Function.Injective (debugTail deps) := by
  intro texts
  induction texts with
  | nil =>
    rintro (_ | ⟨text', rest'⟩) same
    · rfl
    · exact absurd (List.cons.inj same).1 (by decide)
  | cons text rest ih =>
    rintro (_ | ⟨text', rest'⟩) same
    · exact absurd (List.cons.inj same).1 (by decide)
    · simp only [debugTail, List.cons_append, List.cons.injEq, true_and] at same
      obtain ⟨letters, tails⟩ := (debugChar_prefixFree deps).eq_of_append_stop_eq (debugChar_ne_quote deps) same
      rw [String.toList_inj.mp letters, ih tails]

private theorem debugTail_cons (deps : External) (text : String) (rest : List String) :
    debugTail deps (text :: rest) = ',' :: ' ' :: (debugStrings deps (text :: rest)).toList.tail := by
  have opening : "[".toList = ['['] := by decide
  have closing : "]".toList = [']'] := by decide
  have comma : ", ".toList = [',', ' '] := by decide
  have quote : "\"".toList = ['"'] := by decide
  induction rest generalizing text with
  | nil => simp [debugTail, debugStrings, opening, closing, quote, List.flatMap_map]
  | cons next rest ih =>
    rw [debugTail, ih next]
    simp [debugStrings, opening, closing, comma, quote, List.flatMap_map, String.intercalate_cons_cons]

theorem debugStrings_injective (deps : External) : Function.Injective (debugStrings deps) := by
  have bare : (debugStrings deps []).toList = ['[', ']'] := by
    have brackets : "[]".toList = ['[', ']'] := by decide
    exact brackets
  have full : ∀ text rest, (debugStrings deps (text :: rest)).toList.tail.head? = some '"' := by
    intro text rest
    have spelled := congrArg (fun letters => letters.tail.tail.head?) (debugTail_cons deps text rest)
    exact spelled.symm
  rintro (_ | ⟨text, rest⟩) (_ | ⟨text', rest'⟩) same
  · rfl
  · have wrong := full text' rest'
    rw [← same, bare] at wrong
    exact absurd wrong (by decide)
  · have wrong := full text rest
    rw [same, bare] at wrong
    exact absurd wrong (by decide)
  · apply debugTail_injective deps
    rw [debugTail_cons, debugTail_cons, same]

/-- The debug form is brackets around the quoted texts. -/
private theorem toList_debugStrings (deps : External) : ∀ texts : List String,
    (debugStrings deps texts).toList = ['[', ']'] ∨
      ∃ body, (debugStrings deps texts).toList = '[' :: body ∧ debugTail deps texts = ',' :: ' ' :: body
  | [] => .inl (by have brackets : "[]".toList = ['[', ']'] := by decide
                   exact brackets)
  | text :: rest => by
    refine .inr ⟨_, ?_, debugTail_cons deps text rest⟩
    have opening : "[".toList = ['['] := by decide
    simp [debugStrings, opening]

end DebugForm

section Quotes

/-- One character further, when it is known whether the reader is inside of quotes and right after a backslash. -/
def scan : Bool × Bool → Char → Bool × Bool
  | (inside, true), _ => (inside, false)
  | (inside, false), c => if c = '\\' then (inside, true) else if c = '"' then (!inside, false) else (inside, false)

/-- All bars are inside of quotes. -/
def Guarded : Bool × Bool → List Char → Prop
  | _, [] => True
  | state, c :: rest => (c = '|' → state.1 = true) ∧ Guarded (scan state c) rest

theorem guarded_append_iff {state : Bool × Bool} {first second : List Char} :
    Guarded state (first ++ second) ↔ Guarded state first ∧ Guarded (first.foldl scan state) second := by
  induction first generalizing state with
  | nil => simp [Guarded]
  | cons c rest ih => rw [List.cons_append, Guarded, Guarded, ih, List.foldl_cons, and_assoc]

theorem scan_plain {c : Char} (inside : Bool) (backslash : c ≠ '\\') (quote : c ≠ '"') :
    scan (inside, false) c = (inside, false) := by
  rw [scan, if_neg backslash, if_neg quote]

/-- Where the reader starts makes no difference to how often it passes a quote. -/
theorem foldl_scan_not (inside escaped : Bool) (text : List Char) :
    text.foldl scan (!inside, escaped) = (!(text.foldl scan (inside, escaped)).1, (text.foldl scan (inside, escaped)).2) := by
  induction text generalizing inside escaped with
  | nil => rfl
  | cons c rest ih =>
    have step : scan (!inside, escaped) c = (!(scan (inside, escaped) c).1, (scan (inside, escaped) c).2) := by
      cases escaped with
      | true => rfl
      | false =>
        simp only [scan]
        split_ifs <;> rfl
    rw [List.foldl_cons, List.foldl_cons, step, ih]

/-- The text has as many opening quotes as closing ones, and bars between them only. -/
structure Balanced (inside : Bool) (text : List Char) : Prop where
  closes : text.foldl scan (inside, false) = (inside, false)
  guarded : Guarded (inside, false) text

theorem Balanced.append {inside : Bool} {first second : List Char} (left : Balanced inside first)
    (right : Balanced inside second) : Balanced inside (first ++ second) where
  closes := by rw [List.foldl_append, left.closes, right.closes]
  guarded := guarded_append_iff.2 ⟨left.guarded, left.closes.symm ▸ right.guarded⟩

theorem balanced_of_plain {text : List Char} (plain : ∀ c ∈ text, c ≠ '\\' ∧ c ≠ '"') : Balanced true text := by
  induction text with
  | nil => exact ⟨rfl, trivial⟩
  | cons c rest ih =>
    obtain ⟨⟨backslash, quote⟩, later⟩ := List.forall_mem_cons.mp plain
    obtain ⟨closes, guarded⟩ := ih later
    have step := scan_plain true backslash quote
    exact ⟨by rw [List.foldl_cons, step, closes], fun _ => rfl, step.symm ▸ guarded⟩

theorem debugChar_balanced (deps : External) (c : Char) : Balanced true (debugChar deps c).toList := by
  have digits : Balanced true (Nat.toDigits 16 c.toNat ++ ['\x7d']) := by
    refine balanced_of_plain (List.forall_mem_append.mpr ⟨fun d member => ⟨?_, ?_⟩, by decide⟩)
    · rintro rfl
      exact notMem_toDigits (fun _ => Nat.digitChar_ne _ (by decide)) _ member
    · rintro rfl
      exact notMem_toDigits (fun _ => Nat.digitChar_ne _ (by decide)) _ member
  have opening : Balanced true ['\\', 'u', '\x7b'] := ⟨rfl, fun _ => rfl, fun _ => rfl, fun _ => rfl, trivial⟩
  rcases debugChar_cases deps c with ⟨letter, form, -, -⟩ | form | ⟨form, backslash, quote⟩
  · rw [form]
    exact ⟨rfl, fun _ => rfl, fun _ => rfl, trivial⟩
  · rw [form]
    exact opening.append digits
  · rw [form]
    exact balanced_of_plain (List.forall_mem_singleton.mpr ⟨backslash, quote⟩)

theorem flatMap_debugChar_balanced (deps : External) (letters : List Char) :
    Balanced true (letters.flatMap fun c => (debugChar deps c).toList) := by
  induction letters with
  | nil => exact ⟨rfl, trivial⟩
  | cons c rest ih => exact (debugChar_balanced deps c).append ih

/-- A quoted text, seen from outside of it -/
theorem Balanced.quoted {text : List Char} (balanced : Balanced true text) : Balanced false ('"' :: text ++ ['"']) where
  closes := by
    rw [List.cons_append, List.foldl_cons, List.foldl_append]
    change [_].foldl scan (text.foldl scan (true, false)) = _
    rw [balanced.closes]
    rfl
  guarded := by
    refine ⟨nofun, guarded_append_iff.2 ⟨balanced.guarded, ?_⟩⟩
    change Guarded (text.foldl scan (true, false)) _
    rw [balanced.closes]
    exact ⟨nofun, trivial⟩

private theorem debugTail_balanced (deps : External) (texts : List String) : Balanced false (debugTail deps texts) := by
  have comma : Balanced false [',', ' '] := ⟨rfl, nofun, nofun, trivial⟩
  induction texts with
  | nil => exact ⟨rfl, nofun, trivial⟩
  | cons text rest ih =>
    have whole := (comma.append (flatMap_debugChar_balanced deps text.toList).quoted).append ih
    simpa [debugTail] using whole

theorem debugStrings_balanced (deps : External) (texts : List String) :
    Balanced false (debugStrings deps texts).toList := by
  rcases toList_debugStrings deps texts with bare | ⟨body, form, tail⟩
  · rw [bare]
    exact ⟨rfl, nofun, nofun, trivial⟩
  · obtain ⟨closes, guarded⟩ := tail ▸ debugTail_balanced deps texts
    rw [form]
    exact ⟨closes, nofun, guarded.2.2⟩

/-- Reading backwards, a list of texts in debug form is over at the bar before it. -/
theorem eq_of_append_debugStrings_eq {deps : External} {texts texts' : List String} {body body' : List Char}
    (same : body ++ '|' :: (debugStrings deps texts).toList = body' ++ '|' :: (debugStrings deps texts').toList) :
    body = body' ∧ texts = texts' := by
  -- a bar within the debug form is inside of quotes, and so is what follows a balanced text behind it
  have none : ∀ (texts texts' : List String) (middle : List Char),
      (debugStrings deps texts).toList ≠ middle ++ '|' :: (debugStrings deps texts').toList := by
    intro texts texts' middle split
    obtain ⟨closes, guarded⟩ := debugStrings_balanced deps texts
    rw [split] at closes guarded
    have inside : (middle.foldl scan (false, false)).1 = true := (guarded_append_iff.1 guarded).2.1 rfl
    rw [List.foldl_append, List.foldl_cons] at closes
    have passed : scan (middle.foldl scan (false, false)) '|' = (true, false) := by
      generalize middle.foldl scan (false, false) = state at inside
      obtain ⟨_, escaped⟩ := state
      obtain rfl := inside
      cases escaped <;> rfl
    have behind := foldl_scan_not false false (debugStrings deps texts').toList
    rw [passed] at closes
    rw [(debugStrings_balanced deps texts').closes] at behind
    exact absurd (behind.symm.trans closes) (by decide)
  rcases List.append_eq_append_iff.mp same with ⟨middle, longer, rest⟩ | ⟨middle, longer, rest⟩
  · cases middle with
    | nil =>
      obtain ⟨_, tails⟩ := List.cons.inj rest
      exact ⟨by simpa using longer.symm, debugStrings_injective deps (String.toList_inj.mp tails)⟩
    | cons c middle => exact absurd (List.cons.inj rest).2 (none _ _ _)
  · cases middle with
    | nil =>
      obtain ⟨_, tails⟩ := List.cons.inj rest
      exact ⟨by simpa using longer, debugStrings_injective deps (String.toList_inj.mp tails.symm)⟩
    | cons c middle => exact absurd (List.cons.inj rest).2 (none _ _ _)

end Quotes

section DebugForm

/-- Of two commits that differ in their parents at most, the texts are equal when the parents are. -/
theorem fingerprintText_eq_iff_parents (objective : commit.objective = other.objective)
    (summary : commit.summary = other.summary)
    (payload : (commit.stateDelta.map (·.contentHash)).getD "" = (other.stateDelta.map (·.contentHash)).getD "")
    (calls : commit.toolCalls = other.toolCalls) (results : commit.toolResults = other.toolResults) :
    fingerprintText deps commit = fingerprintText deps other ↔ commit.parentCommitIds = other.parentCommitIds := by
  rw [fingerprintText, fingerprintText, objective, summary, payload, calls, results]
  refine ⟨fun same => ?_, fun same => by rw [same]⟩
  simp only [String.intercalate_cons_cons, String.intercalate_singleton, String.append_assoc, String.append_right_inj] at same
  exact debugStrings_injective deps same

end DebugForm

end AttowNexus
