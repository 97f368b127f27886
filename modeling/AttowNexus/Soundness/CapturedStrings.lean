import AttowNexus.Proofs.Capture

/-! # Which captured strings are bounded

A string is cut where the conversion meets it on its own. In Python a container that `json.dumps` takes is returned with
all that is inside it, the recursive calls use the default instead of the given bound, and representations are not cut.
In TypeScript the bound goes down with the recursion, and only what is printed is not cut.
-/

namespace AttowNexus

open Relation

namespace Python

namespace Value

variable {Obj Exc : Type} (interpreter : Interpreter Obj Exc) (maxStringChars : ℤ)

/-- The result is JSON-serialisable, and no string in it is longer than the bound and the mark. -/
structure CapturedWithin (result : Value Obj) : Prop where
  serialisable : result.Serialisable interpreter
  bounded : ∀ text, Holds interpreter result text → (text.length : ℤ) ≤ maxStringChars + truncationMark.length

/-- What the bound asks of a part that the conversion comes to. The strings among them are cut at 4000. -/
structure PartFits (part : Value Obj) : Prop where
  text : ∀ own, part = .str own →
    4000 ≤ maxStringChars ∨ own.length ≤ 4000 ∧ (own.length : ℤ) ≤ maxStringChars + truncationMark.length
  whole : (∀ own, part ≠ .str own) → part.Kept interpreter →
    ∀ text, Holds interpreter part text → (text.length : ℤ) ≤ maxStringChars + truncationMark.length
  generator : ∀ name, part = .object name → Plain interpreter name → interpreter.isGenerator name = true →
    -3 ≤ maxStringChars
  repr : ∀ name, part = .object name → Plain interpreter name → interpreter.isGenerator name = false →
    ∀ text, interpreter.repr name = .ok text → (text.length : ℤ) ≤ maxStringChars + truncationMark.length

/-- A string is cut at the bound itself. -/
def Fits : Value Obj → Prop
  | .str _ => 0 ≤ maxStringChars
  | value => ∀ part, ReflTransGen (Converts interpreter) value part → part.PartFits interpreter maxStringChars

variable {interpreter maxStringChars} {fuel : ℕ} {value result part : Value Obj}

theorem length_truncated (own : String) :
    (truncated own).length = if own.length ≤ 4000 then own.length else 4000 + truncationMark.length := by
  rw [truncated]
  split
  · rfl
  · next long =>
    rw [String.length_append, String.length_ofList, List.length_take, String.length_toList]
    have cut : min 4000 own.length = 4000 := by omega
    rw [cut]
    rfl

/-- The strings that a part puts into the result are bounded exactly when it fits. -/
theorem partFits_iff : part.PartFits interpreter maxStringChars ↔
    ∀ text, Emits interpreter part text → (text.length : ℤ) ≤ maxStringChars + truncationMark.length := by
  have mark : truncationMark.length = 14 := rfl
  constructor
  · intro fits text emits
    cases emits with
    | text own =>
      have bound := fits.text own rfl
      rw [length_truncated]
      split <;> omega
    | whole other kept inside => exact fits.whole other kept text inside
    | generator plain generates =>
      have bound := fits.generator _ rfl plain generates
      have length : "[generator]".length = 11 := rfl
      omega
    | repr plain other printed => exact fits.repr _ rfl plain other text printed
  · intro bounded
    refine ⟨?_, fun other kept text inside => bounded text (.whole other kept inside), ?_, ?_⟩
    · rintro own rfl
      have bound := bounded _ (.text own)
      rw [length_truncated] at bound
      split at bound <;> omega
    · rintro name rfl plain generates
      have bound := bounded _ (.generator plain generates)
      have length : "[generator]".length = 11 := rfl
      omega
    · rintro name rfl plain other text printed
      exact bounded text (.repr plain other printed)

/-- A converted value is captured within the bound exactly when all its parts fit. -/
theorem capturedWithin_iff_parts (run : safeJsonable interpreter fuel value = .ok result) :
    result.CapturedWithin interpreter maxStringChars ↔
      ∀ part, ReflTransGen (Converts interpreter) value part → part.PartFits interpreter maxStringChars := by
  constructor
  · intro captured part path
    refine partFits_iff.2 fun text emits => ?_
    exact captured.bounded text ((holds_iff_reveals run).2 ⟨part, path, emits⟩)
  · intro fits
    refine ⟨serialisable_of_ok run, fun text holds => ?_⟩
    obtain ⟨part, path, emits⟩ := (holds_iff_reveals run).1 holds
    exact partFits_iff.1 (fits part path) text emits

theorem capturedWithin_iff (run : safeJsonableWithin interpreter maxStringChars fuel value = .ok result) :
    result.CapturedWithin interpreter maxStringChars ↔ value.Fits interpreter maxStringChars := by
  cases value with
  | str own =>
    obtain rfl := Except.ok.inj run
    have length : ∀ letters : List Char,
        ((String.ofList (truncate truncationMark.toList maxStringChars letters)).length : ℤ) ≤
          maxStringChars + truncationMark.length ↔ 0 ≤ maxStringChars := by
      intro letters
      rw [String.length_ofList, ← String.length_toList]
      exact length_truncate_le_iff
    constructor
    · intro captured
      exact (length own.toList).1 (captured.bounded _ (holds_str_iff.2 rfl))
    · intro natural
      refine ⟨.str _, fun text holds => ?_⟩
      rw [holds_str_iff.1 holds]
      exact (length own.toList).2 natural
  | _ => exact capturedWithin_iff_parts run

end Value

end Python

namespace TypeScript

namespace Datum

variable (maxStringChars : ℤ)

/-- `JSON.stringify` gives a text of the result, and no string in it is longer than the bound and the mark. -/
structure CapturedWithin (result : Datum) : Prop where
  stringifies : result.stringifies = true
  bounded : ∀ units, result.Holds units → (units.length : ℤ) ≤ maxStringChars + truncationMark.length

/-- The bound is no negative number if there is a string in the value, and what is printed is within the bound. -/
structure Fits (value : Datum) : Prop where
  defined : value ≠ .undefined
  string : ∀ own, ReflTransGen Part value (.string own) → 0 ≤ maxStringChars
  printed : ∀ part units, ReflTransGen Part value part → Prints part units →
    (units.length : ℤ) ≤ maxStringChars + truncationMark.length

variable {maxStringChars} {value : Datum}

theorem capturedWithin_iff :
    (value.safeJsonable maxStringChars).CapturedWithin maxStringChars ↔ value.Fits maxStringChars := by
  have length : ∀ own : Units, ((truncate (codeUnits truncationMark) maxStringChars own).length : ℤ) ≤
      maxStringChars + truncationMark.length ↔ 0 ≤ maxStringChars := fun own => length_truncate_le_iff
  constructor
  · intro captured
    refine ⟨stringifies_safeJsonable_iff.1 captured.stringifies, fun own path => ?_, fun part units path prints => ?_⟩
    · exact (length own).1 (captured.bounded _ (holds_iff_reveals.2 ⟨_, path, .string own⟩))
    · exact captured.bounded units (holds_iff_reveals.2 ⟨part, path, .printed prints⟩)
  · intro fits
    refine ⟨stringifies_safeJsonable_iff.2 fits.defined, fun units holds => ?_⟩
    obtain ⟨part, path, emits⟩ := holds_iff_reveals.1 holds
    cases emits with
    | string own => exact (length own).2 (fits.string own path)
    | printed prints => exact fits.printed part units path prints

end Datum

end TypeScript

/-- Whenever `safe_jsonable` returns, and always for `safeJsonable`: the result is JSON-serialisable with all strings
within the bound and the mark exactly when the value fits the bound. -/
theorem captured_strings_bounded_iff {Obj Exc : Type} :
    (∀ (interpreter : Python.Interpreter Obj Exc) (maxStringChars : ℤ) (fuel : ℕ) (value result : Python.Value Obj),
      Python.Value.safeJsonableWithin interpreter maxStringChars fuel value = .ok result →
      (result.CapturedWithin interpreter maxStringChars ↔ value.Fits interpreter maxStringChars)) ∧
    ∀ (maxStringChars : ℤ) (value : TypeScript.Datum),
      (value.safeJsonable maxStringChars).CapturedWithin maxStringChars ↔ value.Fits maxStringChars :=
  ⟨fun _ _ _ _ _ run => Python.Value.capturedWithin_iff run, fun _ _ => TypeScript.Datum.capturedWithin_iff⟩

section Sample

/-- Python without objects of other classes -/
private def builtins : Python.Interpreter Empty Empty where
  container _ := .none
  modelDump := nofun
  toDict := nofun
  isGenerator := nofun
  repr := nofun
  str _ := .ok ""
  bool := nofun
  mapping _ := .ok []
  deepcopy := nofun
  dumpsSorted _ := .ok ""
  describe _ := .ok ("", "")
  prints _ := true
  recursionLimit := 100

/-- Strings inside of containers: Python returns a dictionary that JSON takes, and TypeScript cuts what is in an array. -/
theorem captured_strings_bounded_iff_inside :
    Python.Value.CapturedWithin builtins 2 (.dict [(.str "key", .list [.str "sixteen letters!"])]) ∧
      (TypeScript.Datum.safeJsonable 0 (.object [([0x6B], .array [.string [0x61]])])).CapturedWithin 0 := by
  obtain ⟨python, typeScript⟩ := @captured_strings_bounded_iff Empty Empty
  have run : Python.Value.safeJsonableWithin builtins 2 5 (.dict [(.str "key", .list [.str "sixteen letters!"])]) =
      .ok (.dict [(.str "key", .list [.str "sixteen letters!"])]) := rfl
  refine ⟨(python builtins 2 5 _ _ run).2 ?_, (typeScript 0 _).2 ?_⟩
  · have kept : Python.Value.Kept builtins (.dict [(.str "key", .list [.str "sixteen letters!"])]) := rfl
    intro part path
    rcases ReflTransGen.cases_head path with rfl | ⟨other, ⟨refused, _⟩, _⟩
    · refine ⟨by rintro _ ⟨⟩, fun _ _ text holds => ?_, by rintro _ ⟨⟩, by rintro _ ⟨⟩⟩
      obtain ⟨entry, member, inside⟩ := Python.Value.holds_dict_iff.1 holds
      obtain rfl := List.mem_singleton.mp member
      obtain ⟨item, member, inside⟩ := Python.Value.holds_list_iff.1 inside
      obtain rfl := List.mem_singleton.mp member
      rw [Python.Value.holds_str_iff.1 inside]
      decide
    · exact absurd (kept.symm.trans refused) nofun
  · refine ⟨nofun, fun _ _ => le_refl 0, fun part units path prints => ?_⟩
    rcases ReflTransGen.cases_head path with rfl | ⟨_, first, path⟩
    · cases prints
    cases first with
    | property member _ =>
      obtain rfl := List.mem_singleton.mp member
      rcases ReflTransGen.cases_head path with rfl | ⟨_, second, path⟩
      · cases prints
      cases second with
      | item member =>
        obtain rfl := List.mem_singleton.mp member
        rcases ReflTransGen.cases_head path with rfl | ⟨_, third, _⟩
        · cases prints
        · cases third

/-- A dictionary that JSON takes is returned with the long string in it. -/
theorem captured_string_unbounded :
    ¬ ((∀ (interpreter : Python.Interpreter Empty Empty) (maxStringChars : ℤ) (fuel : ℕ)
        (value result : Python.Value Empty),
        Python.Value.safeJsonableWithin interpreter maxStringChars fuel value = .ok result →
        result.CapturedWithin interpreter maxStringChars) ∧
      ∀ (maxStringChars : ℤ) (value : TypeScript.Datum),
        (value.safeJsonable maxStringChars).CapturedWithin maxStringChars) := by
  rintro ⟨claim, _⟩
  have run : Python.Value.safeJsonableWithin builtins 1 5 (.dict [(.str "key", .str "sixteen letters!")]) =
      .ok (.dict [(.str "key", .str "sixteen letters!")]) := rfl
  have bound := (claim builtins 1 5 _ _ run).bounded "sixteen letters!" (.dict List.mem_cons_self (.str _))
  exact absurd bound (by decide)

end Sample

end AttowNexus
