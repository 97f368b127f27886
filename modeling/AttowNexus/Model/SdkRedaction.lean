import AttowNexus.Library.Regex.Engine
import AttowNexus.Model.Redaction

/-! # Redaction in the SDKs

`redaction.py` and `redaction.ts`: the walk of the daemon over a value, with the same patterns and the same secret
words. The engines are those of the two languages, which agree on ASCII texts without separators; elsewhere they
differ in what is a word character, white space or another case of a letter. The findings are left out, since an event is redacted without
looking at them.
-/

namespace AttowNexus

open Regex

/-- A character that no engine has a rule of its own for: Python counts the separators U+001C to U+001F as white space,
and where case is ignored the other four may be letters of ASCII. -/
def Ordinary (c : Char) : Prop :=
  ¬ (28 ≤ c.toNat ∧ c.toNat ≤ 31) ∧ c ∉ ['\u0130', '\u0131', '\u017f', '\u212a']

instance (c : Char) : Decidable (Ordinary c) := inferInstanceAs (Decidable (_ ∧ _))

/-- The global replacement of a pattern by the marker: `pattern.sub(REDACTED, text)` and
`text.replace(pattern, REDACTED)` -/
structure RegexEngine where
  replace : Regex → String → String
  onAscii : ∀ regex ∈ redactionPatterns.map (·.2), ∀ text : String, (∀ c ∈ text.toList, c.toNat < 128 ∧ Ordinary c) →
    Replaced .ascii regex redactionMarker.toList [] text.toList (replace regex text).toList
  marks : ∀ regex ∈ redactionPatterns.map (·.2), ∀ text : String,
    replace regex text = text ∨ redactionMarker.toList <:+: (replace regex text).toList

theorem redactionPatterns_checked :
    ∀ regex ∈ redactionPatterns.map (·.2), regex.consumes = true ∧ regex.proper = true := by decide

/-- An engine for which no character outside ASCII is special. -/
def RegexEngine.plain : RegexEngine where
  replace regex text := String.ofList (replaceAll .ascii regex redactionMarker.toList text.toList)
  onAscii regex member text _ := by
    obtain ⟨consumes, proper⟩ := redactionPatterns_checked regex member
    rw [String.toList_ofList]
    exact replaceAll_replaced consumes proper
  marks regex member text := by
    obtain ⟨consumes, proper⟩ := redactionPatterns_checked regex member
    rw [String.toList_ofList]
    rcases (replaceAll_replaced consumes proper).free_or_marked (fun _ _ _ matched => matched.ne_nil consumes) with
      ⟨same, _⟩ | ⟨marked, _⟩
    · rw [same, String.ofList_toList]
      exact .inl rfl
    · exact .inr marked

namespace Sdk

/-- The lower case of a character, as far as words of ASCII letters can tell. -/
def lower (c : Char) : Char := if c = '\u212a' then 'k' else c.toLower

/-- `_secret_key` -/
def secretKey (key : String) : Bool :=
  ["password", "token", "api_key", "apikey", "secret", "private_key", "access_token", "refresh_token"].any
    fun secret => containsText (String.ofList (key.toList.map lower)) secret

variable (engine : RegexEngine)

def redactText (text : String) : String :=
  redactionPatterns.foldl (fun output (_, pattern) => engine.replace pattern output) text

mutual

/-- `_redact` and `redactValue` -/
def redactValue : Json → Json
  | .object members => .object (redactMembers members)
  | .array items => .array (redactItems items)
  | .string text => .string (redactText engine text)
  | .null => .null
  | .bool flag => .bool flag
  | .number value => .number value

def redactItems : List Json → List Json
  | [] => []
  | item :: rest => redactValue item :: redactItems rest

def redactMembers : List (String × Json) → List (String × Json)
  | [] => []
  | (key, child) :: rest =>
      (key, if secretKey key then .string redactionMarker else redactValue child) :: redactMembers rest

end

end Sdk

end AttowNexus
