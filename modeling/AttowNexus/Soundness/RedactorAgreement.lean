import AttowNexus.Model.TypeScriptEvents
import AttowNexus.Proofs.EngineAgreement

/-! # Three redactors

The daemon and the two SDKs walk over a value in the same way and use the same patterns and the same secret words.
They judge a key alike unless it has a letter whose lower case only some of them know, a text unless its white space or
the neighbours of something like a token are special, and a number unless it is no double.
-/

namespace AttowNexus

open Regex

mutual

/-- Every key is judged alike, and the texts and numbers that do not stand under a secret key have these properties. -/
def Json.Shared (texts : String → Prop) (numbers : JsonNumber → Prop) : Json → Prop
  | .object members => SharedMembers texts numbers members
  | .array items => SharedItems texts numbers items
  | .string text => texts text
  | .number value => numbers value
  | _ => True

def SharedItems (texts : String → Prop) (numbers : JsonNumber → Prop) : List Json → Prop
  | [] => True
  | item :: rest => item.Shared texts numbers ∧ SharedItems texts numbers rest

def SharedMembers (texts : String → Prop) (numbers : JsonNumber → Prop) : List (String × Json) → Prop
  | [] => True
  | (key, value) :: rest =>
      secretKeyName key = Sdk.secretKey key ∧ (secretKeyName key = false → value.Shared texts numbers) ∧
        SharedMembers texts numbers rest

end

/-- The daemon, the Python SDK and the TypeScript SDK make the same of a value. -/
def RedactorsAgree (deps : External) (python typescript : RegexEngine) (numbers : DoubleFormat) (value : Json) : Prop :=
  (redactJson deps value "$").1 = Sdk.redactValue python value ∧
    Sdk.redactValue typescript (TypeScript.clone numbers value) = Sdk.redactValue python value

variable {deps : External} {python typescript : RegexEngine} {numbers : DoubleFormat} {texts : String → Prop}
  {kept : JsonNumber → Prop}

mutual

theorem redactJson_of_shared (same : ∀ text, texts text → ∀ path, (redactText deps text path).1 = Sdk.redactText python text)
    (value : Json) (path : String) (shared : value.Shared texts kept) :
    (redactJson deps value path).1 = Sdk.redactValue python value := by
  cases value with
  | object members =>
    simp only [Json.Shared, redactJson, Sdk.redactValue] at shared ⊢
    rw [redactJsonObject_of_shared same members path shared]
  | array items =>
    simp only [Json.Shared, redactJson, Sdk.redactValue] at shared ⊢
    rw [redactJsonItems_of_shared same items path 0 shared]
  | string text =>
    simp only [Json.Shared, redactJson, Sdk.redactValue] at shared ⊢
    rw [same text shared]
  | null => simp only [redactJson, Sdk.redactValue]
  | bool flag => simp only [redactJson, Sdk.redactValue]
  | number value => simp only [redactJson, Sdk.redactValue]

theorem redactJsonItems_of_shared
    (same : ∀ text, texts text → ∀ path, (redactText deps text path).1 = Sdk.redactText python text)
    (items : List Json) (path : String) (idx : ℕ) (shared : SharedItems texts kept items) :
    (redactJsonItems deps items path idx).1 = Sdk.redactItems python items := by
  cases items with
  | nil => rfl
  | cons item rest =>
    simp only [SharedItems, redactJsonItems, Sdk.redactItems] at shared ⊢
    rw [redactJson_of_shared same item _ shared.1, redactJsonItems_of_shared same rest path (idx + 1) shared.2]

theorem redactJsonObject_of_shared
    (same : ∀ text, texts text → ∀ path, (redactText deps text path).1 = Sdk.redactText python text)
    (members : List (String × Json)) (path : String) (shared : SharedMembers texts kept members) :
    (redactJsonObject deps members path).1 = Sdk.redactMembers python members := by
  cases members with
  | nil => rfl
  | cons member rest =>
    obtain ⟨key, value⟩ := member
    simp only [SharedMembers, redactJsonObject, Sdk.redactMembers] at shared ⊢
    obtain ⟨judged, inside, others⟩ := shared
    rw [redactJsonObject_of_shared same rest path others, ← judged]
    split_ifs with secret
    · rfl
    · rw [redactJson_of_shared same value _ (inside ((Bool.not_eq_true _).mp secret))]

end

mutual

/-- The SDK for TypeScript clones a value before it redacts it. -/
theorem redactValue_of_shared (same : ∀ text, texts text → Sdk.redactText typescript text = Sdk.redactText python text)
    (keeps : ∀ value, kept value → numbers.rewrite value = .number value) (value : Json) (shared : value.Shared texts kept) :
    Sdk.redactValue typescript (TypeScript.clone numbers value) = Sdk.redactValue python value := by
  cases value with
  | object members =>
    simp only [Json.Shared, TypeScript.clone, Sdk.redactValue] at shared ⊢
    rw [redactMembers_of_shared same keeps members shared]
  | array items =>
    simp only [Json.Shared, TypeScript.clone, Sdk.redactValue] at shared ⊢
    rw [redactItems_of_shared same keeps items shared]
  | string text =>
    simp only [Json.Shared, TypeScript.clone, Sdk.redactValue] at shared ⊢
    rw [same text shared]
  | null => rfl
  | bool flag => rfl
  | number value =>
    simp only [Json.Shared, TypeScript.clone] at shared ⊢
    rw [keeps value shared]
    rfl

theorem redactItems_of_shared (same : ∀ text, texts text → Sdk.redactText typescript text = Sdk.redactText python text)
    (keeps : ∀ value, kept value → numbers.rewrite value = .number value) (items : List Json)
    (shared : SharedItems texts kept items) :
    Sdk.redactItems typescript (TypeScript.cloneItems numbers items) = Sdk.redactItems python items := by
  cases items with
  | nil => rfl
  | cons item rest =>
    simp only [SharedItems, TypeScript.cloneItems, Sdk.redactItems] at shared ⊢
    rw [redactValue_of_shared same keeps item shared.1, redactItems_of_shared same keeps rest shared.2]

theorem redactMembers_of_shared (same : ∀ text, texts text → Sdk.redactText typescript text = Sdk.redactText python text)
    (keeps : ∀ value, kept value → numbers.rewrite value = .number value) (members : List (String × Json))
    (shared : SharedMembers texts kept members) :
    Sdk.redactMembers typescript (TypeScript.cloneMembers numbers members) = Sdk.redactMembers python members := by
  cases members with
  | nil => rfl
  | cons member rest =>
    obtain ⟨key, value⟩ := member
    simp only [SharedMembers, TypeScript.cloneMembers, Sdk.redactMembers] at shared ⊢
    obtain ⟨judged, inside, others⟩ := shared
    rw [redactMembers_of_shared same keeps rest others]
    split_ifs with secret
    · rfl
    · rw [redactValue_of_shared same keeps value (inside (judged.trans ((Bool.not_eq_true _).mp secret)))]

end

section Sample

/-- Tables with one more letter -/
private def accented : Alphabet where
  isWord c := Alphabet.ascii.isWord c || c = 'é'
  isSpace := Alphabet.ascii.isSpace
  word_ascii c small := by
    have apart : c ≠ 'é' := fun same => absurd (same ▸ small) (by decide)
    rw [decide_eq_false apart, Bool.or_false, Alphabet.ascii.word_ascii c small]
  space_ascii := Alphabet.ascii.space_ascii
  word_folding := by decide
  space_folding := by decide

/-- The functions of the daemon, whose engine knows the letter -/
private def accentedDeps : External :=
  { External.sample with replaceAll := fun regex text _ => (engineOf accented).replace regex text }

/-- The doubles next to 2^53 are 2 apart. -/
private def rounding : DoubleFormat :=
  { DoubleFormat.plain with
    rewrite := fun number => match number with
      | .posInt n => .number (.posInt (if n ≤ 9007199254740992 then n else n / 2 * 2))
      | _ => .number number
    rewrite_posInt := fun n small => by
      dsimp only
      rw [if_pos small] }

private def mixed : Json := .object [("note", .string "café: Bearer abc"), ("token", .number (.posInt 9007199254740993))]

end Sample

end AttowNexus
