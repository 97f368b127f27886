import AttowNexus.Library.Regex.Anchored
import AttowNexus.Model.SdkRedaction
import AttowNexus.Proofs.UniversalEvent

/-! # What redaction does to the fields of an event

A text without brackets comes out of the patterns as it went in or with a marker, and on an ASCII text the patterns
leave alone exactly what none of them matches. Redacting an object redacts the members whose keys are not secret.
-/

namespace AttowNexus

open Regex

/-- None of the patterns matches anywhere in the text. -/
def Secretless (text : String) : Prop := ∀ regex ∈ redactionPatterns.map (·.2), Free .ascii regex text.toList

/-- Neither marked nor outside what the engines agree on -/
structure Plain (text : String) : Prop where
  ascii : ∀ c ∈ text.toList, c.toNat < 128 ∧ Ordinary c
  unmarked : '[' ∉ text.toList

section Texts

variable {engine : RegexEngine} {text : String}

theorem bracket_of_marker (marked : redactionMarker.toList <:+: text.toList) : '[' ∈ text.toList :=
  marked.subset (by decide)

/-- Without a match there is nothing to replace, and a replacement shows. -/
theorem replace_eq_self_iff {regex : Regex} (member : regex ∈ redactionPatterns.map (·.2)) (plain : Plain text) :
    engine.replace regex text = text ↔ Free .ascii regex text.toList := by
  obtain ⟨consumes, _⟩ := redactionPatterns_checked regex member
  rcases (engine.onAscii regex member text plain.ascii).free_or_marked (fun _ _ _ matched => matched.ne_nil consumes) with
    ⟨same, free⟩ | ⟨marked, matched⟩
  · exact iff_of_true (String.toList_injective same) free
  · refine iff_of_false (fun same => ?_) matched
    exact plain.unmarked (bracket_of_marker (same ▸ marked))

/-- The patterns of a list, one after the other. -/
private def stages (engine : RegexEngine) (patterns : List Regex) (text : String) : String :=
  patterns.foldl (fun output pattern => engine.replace pattern output) text

theorem redactText_eq : Sdk.redactText engine text = stages engine (redactionPatterns.map (·.2)) text := by
  rw [Sdk.redactText, stages, List.foldl_map]

/-- What comes out unmarked was left alone by every pattern. -/
private theorem stages_unmarked {patterns : List Regex} (known : patterns ⊆ redactionPatterns.map (·.2))
    (unmarked : '[' ∉ (stages engine patterns text).toList) :
    stages engine patterns text = text ∧ ∀ pattern ∈ patterns, engine.replace pattern text = text := by
  induction patterns generalizing text with
  | nil => exact ⟨rfl, fun _ absent => absurd absent List.not_mem_nil⟩
  | cons pattern rest ih =>
    obtain ⟨here, known⟩ := List.cons_subset.mp known
    have quiet : '[' ∉ (stages engine rest (engine.replace pattern text)).toList := unmarked
    obtain ⟨later, others⟩ := ih known quiet
    have same : engine.replace pattern text = text := by
      refine (engine.marks pattern here text).resolve_right fun marked => ?_
      rw [later] at quiet
      exact quiet (bracket_of_marker marked)
    rw [same] at later others
    refine ⟨?_, List.forall_mem_cons.mpr ⟨same, others⟩⟩
    rwa [stages, List.foldl_cons, same]

private theorem stages_same {patterns : List Regex} (same : ∀ pattern ∈ patterns, engine.replace pattern text = text) :
    stages engine patterns text = text := by
  induction patterns with
  | nil => rfl
  | cons pattern rest ih =>
    obtain ⟨here, others⟩ := List.forall_mem_cons.mp same
    rw [stages, List.foldl_cons, here]
    exact ih others

theorem redactText_of_secretless (plain : Plain text) (secretless : Secretless text) : Sdk.redactText engine text = text := by
  rw [redactText_eq]
  exact stages_same fun pattern member => (replace_eq_self_iff member plain).mpr (secretless pattern member)

/-- What comes out without a bracket went in that way, and no pattern matched. -/
theorem eq_of_redactText_unmarked (unmarked : '[' ∉ (Sdk.redactText engine text).toList)
    (ascii : ∀ c ∈ (Sdk.redactText engine text).toList, c.toNat < 128 ∧ Ordinary c) :
    Sdk.redactText engine text = text ∧ Secretless text := by
  rw [redactText_eq] at unmarked ascii ⊢
  obtain ⟨same, others⟩ := stages_unmarked (List.Subset.refl _) unmarked
  rw [same] at unmarked ascii
  exact ⟨same, fun pattern member => (replace_eq_self_iff member ⟨ascii, unmarked⟩).mp (others pattern member)⟩

/-- A property that only plain texts have holds after redaction when it held before and no pattern matches. -/
theorem redactText_iff {P : String → Prop} (plain : ∀ text, P text → Plain text) :
    P (Sdk.redactText engine text) ↔ P text ∧ Secretless text := by
  constructor
  · intro holds
    obtain ⟨same, secretless⟩ := eq_of_redactText_unmarked (plain _ holds).unmarked (plain _ holds).ascii
    exact ⟨same ▸ holds, secretless⟩
  · rintro ⟨holds, secretless⟩
    rwa [redactText_of_secretless (plain text holds) secretless]

/-- Redaction makes no text empty. -/
theorem redactText_eq_empty_iff : Sdk.redactText engine text = "" ↔ text = "" := by
  constructor
  · intro empty
    have unmarked : '[' ∉ (Sdk.redactText engine text).toList := by
      rw [empty]
      exact List.not_mem_nil
    rw [redactText_eq] at unmarked empty
    rw [← (stages_unmarked (List.Subset.refl _) unmarked).1, empty]
  · rintro rfl
    refine redactText_of_secretless ⟨fun _ absent => absurd absent List.not_mem_nil, List.not_mem_nil⟩ ?_
    intro regex member left middle right whole matched
    obtain ⟨_, inner⟩ := List.append_eq_nil_iff.mp (whole.symm : left ++ (middle ++ right) = [])
    exact matched.ne_nil (redactionPatterns_checked regex member).1 (List.append_eq_nil_iff.mp inner).1

/-- A text that the matcher goes through without a match -/
def secretless (text : String) : Bool := redactionPatterns.all fun pattern => isFree .ascii pattern.2 text.toList

theorem secretless_of_check (checked : secretless text = true) : Secretless text := by
  intro regex member
  obtain ⟨pattern, inside, rfl⟩ := List.mem_map.mp member
  exact free_of_isFree (redactionPatterns_checked _ member).2 (List.all_eq_true.mp checked pattern inside)

/-- From the space on, no character of ASCII is out of the ordinary. -/
theorem ordinary_of_ascii {c : Char} (visible : 32 ≤ c.toNat) (ascii : c.toNat < 128) : Ordinary c := by
  refine ⟨by omega, fun special => ?_⟩
  have large : ∀ c ∈ ['\u0130', '\u0131', '\u017f', '\u212a'], 128 ≤ c.toNat := by decide
  exact absurd (large c special) (by omega)

/-- A character of a range below the bracket, or between it and the end of ASCII -/
private theorem plain_of_range {low high c : Char} (between : low ≤ c ∧ c ≤ high)
    (apart : 32 ≤ low.toNat ∧ high.toNat < 91 ∨ 91 < low.toNat ∧ high.toNat < 128) :
    (c.toNat < 128 ∧ Ordinary c) ∧ c ≠ '[' := by
  have lower : low.toNat ≤ c.toNat := between.1
  have upper : c.toNat ≤ high.toNat := between.2
  refine ⟨⟨by omega, ordinary_of_ascii (by omega) (by omega)⟩, ?_⟩
  rintro rfl
  have code : ('[').toNat = 91 := rfl
  omega

theorem IsIdChar.plain {c : Char} (listed : IsIdChar c) : (c.toNat < 128 ∧ Ordinary c) ∧ c ≠ '[' := by
  rcases listed with upper | lower | digit | rfl | rfl | rfl | rfl
  · exact plain_of_range upper (by decide)
  · exact plain_of_range lower (by decide)
  · exact plain_of_range digit (by decide)
  · decide
  · decide
  · decide
  · decide

theorem IsId.plain (named : IsId text) : Plain text where
  ascii c member := (named.2 c member).plain.1
  unmarked member := (named.2 '[' member).plain.2 rfl

theorem IsChannel.plain (named : IsChannel text) : Plain text := by
  obtain ⟨kind, name, whole, ⟨first, rest, rfl, small, body⟩, _, letters⟩ := named
  have each : ∀ c ∈ text.toList, (c.toNat < 128 ∧ Ordinary c) ∧ c ≠ '[' := by
    rw [whole, List.cons_append, List.forall_mem_cons, List.forall_mem_append, List.forall_mem_cons]
    refine ⟨plain_of_range small (by decide), fun c member => ?_, by decide, fun c member => ?_⟩
    · rcases body c member with lower | digit | rfl
      · exact plain_of_range lower (by decide)
      · exact plain_of_range digit (by decide)
      · decide
    · rcases letters c member with listed | rfl
      · exact listed.plain
      · decide
  exact ⟨fun c member => (each c member).1, fun member => (each '[' member).2 rfl⟩

end Texts

section Values

variable {engine : RegexEngine} {key : String} {members : JsonMap}

theorem get_redactMembers (plain : Sdk.secretKey key = false) :
    JsonMap.get key (Sdk.redactMembers engine members) = (JsonMap.get key members).map (Sdk.redactValue engine) := by
  induction members with
  | nil => rfl
  | cons member rest ih =>
    obtain ⟨first, child⟩ := member
    rw [Sdk.redactMembers, JsonMap.get_cons, JsonMap.get_cons, ih]
    split_ifs with same secret
    · rw [same, plain] at secret
      exact absurd secret Bool.false_ne_true
    · rfl
    · rfl

/-- Where no key is secret, every member is redacted by itself. -/
theorem redactMembers_of_plain (plain : ∀ key ∈ members.map (·.1), Sdk.secretKey key = false) :
    Sdk.redactMembers engine members = members.map fun member => (member.1, Sdk.redactValue engine member.2) := by
  induction members with
  | nil => rfl
  | cons member rest ih =>
    obtain ⟨here, others⟩ := List.forall_mem_cons.mp plain
    rw [Sdk.redactMembers, if_neg (by rw [here]; decide), ih others]
    rfl

theorem redactItems_map_string {texts : List String} :
    Sdk.redactItems engine (texts.map .string) = (texts.map (Sdk.redactText engine)).map .string := by
  induction texts with
  | nil => rfl
  | cons text texts ih =>
    rw [List.map_cons, Sdk.redactItems, ih]
    rfl

end Values

end AttowNexus
