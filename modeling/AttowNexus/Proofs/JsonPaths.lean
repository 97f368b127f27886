import AttowNexus.Library.Paths
import AttowNexus.Proofs.Diff
import AttowNexus.Proofs.RedactedText

/-! # Paths in JSON values

A step goes to the value under a key or at an index. What redaction makes of a value does not depend on the path that it
reports, and it commutes with every step that no secret-looking key names.
-/

namespace AttowNexus

inductive PathStep where
  | key (name : String)
  | index (idx : ℕ)
deriving DecidableEq, Repr

/-- Whether the step goes under a secret-looking key -/
def PathStep.secret : PathStep → Bool
  | .key name => secretKeyName name
  | .index _ => false

namespace Json

def child : PathStep → Json → Option Json
  | .key name, .object members => JsonMap.get name members
  | .index idx, .array items => items[idx]?
  | _, _ => none

/-- The value at a path -/
def valueAt (value : Json) (steps : List PathStep) : Option Json := Paths.follow child steps value

theorem child_string (text : String) (step : PathStep) : child step (.string text) = none := by
  cases step <;> rfl

end Json

variable {deps : External}

section Values

mutual

theorem redactJson_path (value : Json) (path other : String) :
    (redactJson deps value path).1 = (redactJson deps value other).1 := by
  cases value with
  | object members => simp only [redactJson, redactJsonObject_path members path other]
  | array items => simp only [redactJson, redactJsonItems_path items path other 0 0]
  | string text => simp only [redactJson, redactText_fst]
  | null => simp only [redactJson]
  | bool flag => simp only [redactJson]
  | number value => simp only [redactJson]

theorem redactJsonItems_path (items : List Json) (path other : String) (idx place : ℕ) :
    (redactJsonItems deps items path idx).1 = (redactJsonItems deps items other place).1 := by
  cases items with
  | nil => simp only [redactJsonItems]
  | cons item rest =>
    simp only [redactJsonItems]
    rw [redactJson_path item _ (other ++ "[" ++ toString place ++ "]"),
      redactJsonItems_path rest path other (idx + 1) (place + 1)]

theorem redactJsonObject_path (members : List (String × Json)) (path other : String) :
    (redactJsonObject deps members path).1 = (redactJsonObject deps members other).1 := by
  match members with
  | [] => simp only [redactJsonObject]
  | (key, value) :: rest =>
    simp only [redactJsonObject]
    rw [redactJsonObject_path rest path other]
    split_ifs
    · rfl
    · rw [redactJson_path value _ (other ++ "." ++ key)]

end

variable (deps)

/-- What redaction makes of a value, wherever it stands -/
def Json.redacted (value : Json) : Json := (redactJson deps value "$").1

variable {deps}

theorem redactJson_fst (value : Json) (path : String) : (redactJson deps value path).1 = value.redacted deps :=
  redactJson_path value path "$"

theorem redactJsonItems_fst (items : List Json) (path : String) (idx : ℕ) :
    (redactJsonItems deps items path idx).1 = items.map (Json.redacted deps) := by
  induction items generalizing idx with
  | nil => simp only [redactJsonItems, List.map_nil]
  | cons item rest ih => simp only [redactJsonItems, redactJson_fst, ih, List.map_cons]

theorem get_redactJsonObject (key : String) (members : JsonMap) (path : String) :
    JsonMap.get key (redactJsonObject deps members path).1 =
      (JsonMap.get key members).map fun value =>
        if secretKeyName key then .string redactionMarker else value.redacted deps := by
  induction members with
  | nil => simp [redactJsonObject, JsonMap.get]
  | cons member rest ih =>
    obtain ⟨first, value⟩ := member
    simp only [redactJsonObject, JsonMap.get_cons, ih]
    by_cases same : first = key
    · subst same
      rw [if_pos rfl, if_pos rfl, Option.map_some]
      split_ifs
      · rfl
      · rw [redactJson_fst]
    · rw [if_neg same, if_neg same]

/-- One step into a redacted value -/
theorem child_redacted (step : PathStep) (value : Json) :
    Json.child step (value.redacted deps) =
      (Json.child step value).map fun value => if step.secret then .string redactionMarker else value.redacted deps := by
  cases value with
  | object members =>
    cases step with
    | key name =>
      simp only [Json.redacted, redactJson, Json.child, get_redactJsonObject, PathStep.secret]
      rfl
    | index idx => simp only [Json.redacted, redactJson, Json.child, Option.map_none]
  | array items =>
    cases step with
    | key name => simp only [Json.redacted, redactJson, Json.child, Option.map_none]
    | index idx =>
      simp only [Json.redacted, redactJson, Json.child, redactJsonItems_fst, List.getElem?_map, PathStep.secret,
        Bool.false_eq_true, if_false]
      rfl
  | string text => cases step <;> simp only [Json.redacted, redactJson, Json.child, Option.map_none]
  | null => cases step <;> simp only [Json.redacted, redactJson, Json.child, Option.map_none]
  | bool flag => cases step <;> simp only [Json.redacted, redactJson, Json.child, Option.map_none]
  | number value => cases step <;> simp only [Json.redacted, redactJson, Json.child, Option.map_none]

end Values

section Places

variable {steps : List PathStep}

/-- Outside of secret-looking keys, redaction acts on what is there. -/
theorem valueAt_redacted (plain : ∀ step ∈ steps, step.secret = false) (value : Json) :
    (value.redacted deps).valueAt steps = (value.valueAt steps).map (Json.redacted deps) := by
  refine Paths.follow_map (fun step member value => ?_) value
  rw [child_redacted]
  simp only [plain step member, Bool.false_eq_true, if_false]

/-- The first secret-looking key on a path leads to the marker, and the path ends there. -/
theorem valueAt_redacted_secret (plain : ∀ step ∈ steps, step.secret = false) {step : PathStep} (secret : step.secret = true)
    (after : List PathStep) (value : Json) :
    (value.redacted deps).valueAt (steps ++ step :: after) =
      if after = [] then (value.valueAt (steps ++ [step])).map fun _ => .string redactionMarker else none := by
  refine Paths.follow_leaf (Json.child_string redactionMarker) (fun step member value => ?_) (fun value => ?_) after value
  · rw [child_redacted]
    simp only [plain step member, Bool.false_eq_true, if_false]
  · rw [child_redacted]
    simp only [secret, if_true]

end Places

section Triggers

variable (deps)

/-- One of the patterns changes what the ones before it made of the text. -/
def FiresAmong : List (String × Regex) → String → Prop
  | [], _ => False
  | (_, regex) :: rest, text =>
      deps.replaceAll regex text redactionMarker ≠ text ∨ FiresAmong rest (deps.replaceAll regex text redactionMarker)

def Fires (text : String) : Prop := FiresAmong deps redactionPatterns text

/-- Redaction meets a secret-looking key, or a text in which a pattern fires. -/
inductive Json.Triggers : Json → Prop
  | text {text : String} : Fires deps text → Triggers (.string text)
  | item {items : List Json} {item : Json} : item ∈ items → Triggers item → Triggers (.array items)
  | secret {members : JsonMap} {key : String} {value : Json} :
      (key, value) ∈ members → secretKeyName key = true → Triggers (.object members)
  | member {members : JsonMap} {key : String} {value : Json} :
      (key, value) ∈ members → secretKeyName key = false → Triggers value → Triggers (.object members)

variable {deps}

/-- A text leaves findings when a pattern fires in it. -/
theorem redactText_snd_ne_nil_iff (text path : String) : (redactText deps text path).2 ≠ [] ↔ Fires deps text := by
  -- the same for the patterns that are left, from the text and the findings so far
  have passes : ∀ (patterns : List (String × Regex)) (state : String × List RedactionFinding),
      (patterns.foldl (fun (state : String × List RedactionFinding) pattern =>
        if deps.replaceAll pattern.2 state.1 redactionMarker ≠ state.1 then
          (deps.replaceAll pattern.2 state.1 redactionMarker, state.2 ++ [redactionFinding path pattern.1])
        else state) state).2 ≠ [] ↔ state.2 ≠ [] ∨ FiresAmong deps patterns state.1 := by
    intro patterns
    induction patterns with
    | nil => simp [FiresAmong]
    | cons pattern rest ih =>
      intro state
      rw [List.foldl_cons, ih, FiresAmong]
      split_ifs with changed
      · simp [changed]
      · rw [not_not.mp changed]
        simp
  refine (passes redactionPatterns (text, [])).trans ?_
  simp [Fires]

theorem redactJson_triggers_iff (value : Json) (path : String) :
    (redactJson deps value path).2 ≠ [] ↔ value.Triggers deps := by
  induction value using Json.structural generalizing path with
  | null => exact ⟨fun found => absurd (by simp only [redactJson]) found, nofun⟩
  | bool flag => exact ⟨fun found => absurd (by simp only [redactJson]) found, nofun⟩
  | number value => exact ⟨fun found => absurd (by simp only [redactJson]) found, nofun⟩
  | string text =>
    simp only [redactJson]
    rw [redactText_snd_ne_nil_iff]
    exact ⟨.text, fun | .text fires => fires⟩
  | array items ih =>
    have parts : ∀ idx, (redactJsonItems deps items path idx).2 ≠ [] ↔ ∃ item ∈ items, item.Triggers deps := by
      induction items with
      | nil => simp [redactJsonItems]
      | cons item rest later =>
        obtain ⟨here, ih⟩ := List.forall_mem_cons.mp ih
        intro idx
        simp only [redactJsonItems, List.exists_mem_cons_iff, ← later ih (idx + 1),
          ← here (path ++ "[" ++ toString idx ++ "]"), ne_eq, List.append_eq_nil_iff, not_and_or]
    simp only [redactJson]
    refine (parts 0).trans ⟨fun ⟨item, member, triggers⟩ => .item member triggers, ?_⟩
    exact fun | .item member triggers => ⟨_, member, triggers⟩
  | object members ih =>
    have parts : (redactJsonObject deps members path).2 ≠ [] ↔
        ∃ member ∈ members, secretKeyName member.1 = true ∨ member.2.Triggers deps := by
      induction members with
      | nil => simp [redactJsonObject]
      | cons member rest later =>
        obtain ⟨key, value⟩ := member
        obtain ⟨here, ih⟩ := List.forall_mem_cons.mp ih
        rw [List.exists_mem_cons_iff, ← later ih, ← here (path ++ "." ++ key)]
        simp only [redactJsonObject]
        by_cases secret : secretKeyName key = true
        · simp [secret]
        · simp only [secret, if_false, Bool.false_eq_true, ne_eq, List.append_eq_nil_iff, not_and_or, false_or]
    simp only [redactJson]
    refine parts.trans ⟨?_, ?_⟩
    · rintro ⟨⟨key, value⟩, member, found⟩
      by_cases secret : secretKeyName key = true
      · exact .secret member secret
      · exact .member member (Bool.eq_false_iff.mpr secret) (found.resolve_left secret)
    · intro triggers
      cases triggers with
      | secret member secret => exact ⟨_, member, .inl secret⟩
      | member member _ triggers => exact ⟨_, member, .inr triggers⟩

end Triggers

end AttowNexus
