import AttowNexus.Proofs.Recording

/-! # Values that an event can carry

A value that `json.dumps` takes, with strings for the keys of the dictionaries that a redaction looks into, is copied,
redacted and converted, and `json.dumps` takes what redaction makes of it.
-/

namespace AttowNexus

namespace Python

open Checks

variable {Obj Exc : Type}

namespace Value

variable {interpreter : Interpreter Obj Exc} {engine : RegexEngine} {fuel more : ℕ} {around others : List ℕ}
  {value result : Value Obj}

/-- A redaction gets through a value: it meets no key that is not a string, and is nested less deep than this. -/
def Walkable (interpreter : Interpreter Obj Exc) : ℕ → Value Obj → Prop
  | 0, _ => False
  | fuel + 1, .dict entries => ∀ entry ∈ entries, ∃ text, entry.1 = .str text ∧
      (Sdk.secretKey text = false → Walkable interpreter fuel entry.2)
  | fuel + 1, .list items => ∀ item ∈ items, Walkable interpreter fuel item
  | fuel + 1, .named reference => Walkable interpreter fuel (interpreter.container reference)
  | _ + 1, _ => True

theorem isOk_redact_iff : (redact interpreter engine fuel value).isOk = true ↔ Walkable interpreter fuel value := by
  induction fuel generalizing value with
  | zero => exact iff_of_false (by rintro ⟨⟩) id
  | succ fuel ih =>
    cases value with
    | dict entries =>
      simp only [redact, Walkable]
      rw [isOk_bind_ok, isOk_mapM_iff]
      refine forall₂_congr fun entry _ => ?_
      rcases entry with ⟨key, child⟩
      cases key with
      | str text =>
        simp only [str.injEq, exists_eq_left']
        cases secret : Sdk.secretKey text with
        | true => exact iff_of_true rfl (by rintro ⟨⟩)
        | false => exact isOk_map.trans (ih.trans ⟨fun walks _ => walks, fun walks => walks rfl⟩)
      | _ => exact iff_of_false (by rintro ⟨⟩) (by rintro ⟨_, ⟨⟩, _⟩)
    | list items =>
      simp only [redact, Walkable]
      rw [isOk_map, isOk_mapM_iff]
      exact forall₂_congr fun _ _ => ih
    | named reference => exact ih
    | _ => exact iff_of_true rfl trivial

/-- What is dumped is also dumped with more room and inside of fewer containers. -/
theorem dumps_mono (room : fuel ≤ more) (fewer : others ⊆ around)
    (dumped : dumps interpreter fuel around value = .ok ()) : dumps interpreter more others value = .ok () := by
  induction fuel generalizing more around others value with
  | zero =>
    cases value with
    | list _ => cases dumped
    | tuple _ => cases dumped
    | dict _ => cases dumped
    | named _ => cases dumped
    | set _ => cases dumped
    | object _ => cases dumped
    | _ => cases more <;> exact dumped
  | succ fuel ih =>
    obtain ⟨more, rfl⟩ : ∃ less, more = less + 1 := ⟨more - 1, by omega⟩
    have room := Nat.le_of_succ_le_succ room
    cases value with
    | list items =>
      exact forM_eq_ok_iff.2 fun item member => ih room fewer (forM_eq_ok_iff.1 dumped item member)
    | tuple items =>
      exact forM_eq_ok_iff.2 fun item member => ih room fewer (forM_eq_ok_iff.1 dumped item member)
    | dict entries =>
      refine forM_eq_ok_iff.2 fun entry member => ?_
      obtain ⟨_, key, child⟩ := bind_eq_ok_iff.1 (forM_eq_ok_iff.1 dumped entry member)
      exact bind_eq_ok_iff.2 ⟨_, key, ih room fewer child⟩
    | named reference =>
      rw [dumps] at dumped ⊢
      split_ifs at dumped with inside
      rw [if_neg fun member => inside (fewer member)]
      exact ih room (List.cons_subset_cons _ fewer) dumped
    | _ => exact dumped

/-- What is dumped can be copied. -/
theorem deepcopy_of_dumps (dumped : dumps interpreter fuel around value = .ok ()) :
    deepcopy interpreter (fuel + 1) around value = .ok () := by
  induction fuel generalizing around value with
  | zero =>
    cases value with
    | list _ => cases dumped
    | tuple _ => cases dumped
    | dict _ => cases dumped
    | named _ => cases dumped
    | set _ => cases dumped
    | object _ => cases dumped
    | _ => rfl
  | succ fuel ih =>
    cases value with
    | list items => exact forM_eq_ok_iff.2 fun item member => ih (forM_eq_ok_iff.1 dumped item member)
    | tuple items => exact forM_eq_ok_iff.2 fun item member => ih (forM_eq_ok_iff.1 dumped item member)
    | dict entries =>
      refine forM_eq_ok_iff.2 fun entry member => ?_
      obtain ⟨_, key, child⟩ := bind_eq_ok_iff.1 (forM_eq_ok_iff.1 dumped entry member)
      refine bind_eq_ok_iff.2 ⟨⟨⟩, ?_, ih child⟩
      rcases entry with ⟨name, _⟩
      cases name with
      | none => rfl
      | bool _ => rfl
      | int _ => rfl
      | float _ => rfl
      | str _ => rfl
      | _ => cases key
    | named reference =>
      rw [dumps] at dumped
      split_ifs at dumped with inside
      rw [deepcopy, if_neg inside]
      exact ih dumped
    | set _ => cases dumped
    | object _ => cases dumped
    | _ => rfl

/-- What redaction makes of something that is dumped is dumped as well. -/
theorem dumps_redact (dumped : dumps interpreter fuel around value = .ok ())
    (run : redact interpreter engine more value = .ok result) : dumps interpreter fuel around result = .ok () := by
  induction more generalizing fuel around value result with
  | zero => cases run
  | succ more ih =>
    cases value with
    | dict entries =>
      obtain ⟨redacted, each, same⟩ := bind_eq_ok_iff.1 run
      obtain rfl := Except.ok.inj same
      cases fuel with
      | zero => cases dumped
      | succ fuel =>
        refine forM_eq_ok_iff.2 fun entry member => ?_
        obtain ⟨⟨key, child⟩, inside, made⟩ := (mem_of_mapM each).1 entry member
        obtain ⟨_, plain, holds⟩ := bind_eq_ok_iff.1 (forM_eq_ok_iff.1 dumped _ inside)
        cases key with
        | str text =>
          dsimp only at made
          split_ifs at made
          · obtain rfl := Except.ok.inj made
            cases fuel <;> rfl
          · obtain ⟨child', redacts, rfl⟩ := map_eq_ok_iff.1 made
            exact bind_eq_ok_iff.2 ⟨_, rfl, ih holds redacts⟩
        | _ => cases made
    | list items =>
      obtain ⟨redacted, each, rfl⟩ := map_eq_ok_iff.1 run
      cases fuel with
      | zero => cases dumped
      | succ fuel =>
        refine forM_eq_ok_iff.2 fun item member => ?_
        obtain ⟨old, inside, made⟩ := (mem_of_mapM each).1 item member
        exact ih (forM_eq_ok_iff.1 dumped old inside) made
    | str text =>
      obtain rfl := Except.ok.inj run
      cases fuel <;> rfl
    | named reference =>
      cases fuel with
      | zero => cases dumped
      | succ fuel =>
        rw [dumps] at dumped
        split_ifs at dumped
        exact dumps_mono (Nat.le_succ fuel) (List.subset_cons_self _ _) (ih dumped run)
    | _ =>
      obtain rfl := Except.ok.inj run
      exact dumped

theorem Walkable.mono (walks : Walkable interpreter fuel value) (room : fuel ≤ more) : Walkable interpreter more value := by
  induction fuel generalizing more value with
  | zero => exact absurd walks id
  | succ fuel ih =>
    obtain ⟨more, rfl⟩ : ∃ less, more = less + 1 := ⟨more - 1, by omega⟩
    have room := Nat.le_of_succ_le_succ room
    cases value with
    | dict entries =>
      intro entry member
      obtain ⟨text, key, child⟩ := walks entry member
      exact ⟨text, key, fun plain => ih (child plain) room⟩
    | list items => exact fun item member => ih (walks item member) room
    | named reference => exact @ih _ (interpreter.container reference) walks room
    | _ => trivial

/-- A value that `json.dumps` takes and a redaction gets through, and that is nested less deep than this -/
structure Jsonable (interpreter : Interpreter Obj Exc) (room : ℕ) (value : Value Obj) : Prop where
  dumped : dumps interpreter room [] value = .ok ()
  walkable : Walkable interpreter room value

namespace Jsonable

theorem mono (jsonable : Jsonable interpreter fuel value) (room : fuel ≤ more) : Jsonable interpreter more value :=
  ⟨dumps_mono room (List.Subset.refl _) jsonable.dumped, jsonable.walkable.mono room⟩

theorem str (text : String) (room : 0 < fuel) : Jsonable interpreter fuel (.str text) := by
  obtain ⟨less, rfl⟩ := Nat.exists_eq_add_one.mpr room
  exact ⟨rfl, trivial⟩

theorem none (room : 0 < fuel) : Jsonable interpreter fuel (.none : Value Obj) := by
  obtain ⟨less, rfl⟩ := Nat.exists_eq_add_one.mpr room
  exact ⟨rfl, trivial⟩

theorem int {number : ℤ} (prints : interpreter.prints number = true) (room : 0 < fuel) :
    Jsonable interpreter fuel (.int number) := by
  obtain ⟨less, rfl⟩ := Nat.exists_eq_add_one.mpr room
  exact ⟨if_pos prints, trivial⟩

theorem dict {entries : List (Value Obj × Value Obj)}
    (each : ∀ entry ∈ entries, ∃ text, entry.1 = .str text ∧ Jsonable interpreter fuel entry.2) :
    Jsonable interpreter (fuel + 1) (.dict entries) where
  dumped := by
    refine forM_eq_ok_iff.2 fun entry member => ?_
    obtain ⟨text, key, child⟩ := each entry member
    refine bind_eq_ok_iff.2 ⟨⟨⟩, ?_, child.dumped⟩
    rw [key]
    rfl
  walkable entry member := by
    obtain ⟨text, key, child⟩ := each entry member
    exact ⟨text, key, fun _ => child.walkable⟩

theorem ofEntries {entries : List (String × Value Obj)}
    (each : ∀ entry ∈ entries, Jsonable interpreter fuel entry.2) :
    Jsonable interpreter (fuel + 1) (Value.ofEntries entries) := by
  refine .dict fun entry member => ?_
  obtain ⟨given, inside, rfl⟩ := List.mem_map.mp member
  exact ⟨given.1, rfl, each given inside⟩

end Jsonable

/-- `safe_jsonable` leaves what is dumped alone, up to the length of a string. -/
theorem safeJsonable_of_dumps (dumped : dumps interpreter interpreter.recursionLimit [] value = .ok ()) :
    ∃ converted, safeJsonable interpreter (fuel + 1) value = .ok converted ∧
      (converted = value ∨ ∃ text, converted = .str text) := by
  cases value with
  | str text => exact ⟨_, rfl, .inr ⟨_, rfl⟩⟩
  | _ =>
    refine ⟨_, ?_, .inl rfl⟩
    simp only [safeJsonable]
    rw [dumped]

theorem Jsonable.safeJsonable (jsonable : Jsonable interpreter fuel value) (room : 0 < fuel)
    (deep : fuel ≤ interpreter.recursionLimit) : ∃ converted,
      Value.safeJsonable interpreter interpreter.recursionLimit value = .ok converted ∧
        Jsonable interpreter fuel converted := by
  obtain ⟨limit, same⟩ := Nat.exists_eq_add_one.mpr (room.trans_le deep)
  obtain ⟨converted, run, rfl | ⟨text, rfl⟩⟩ := @safeJsonable_of_dumps _ _ _ limit _
    (dumps_mono deep (List.Subset.refl _) jsonable.dumped)
  · exact ⟨_, same ▸ run, jsonable⟩
  · exact ⟨_, same ▸ run, .str text room⟩

end Value

end Python

end AttowNexus
