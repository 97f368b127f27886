import AttowNexus.Library.Checks
import AttowNexus.Model.PythonValues

/-! # Conversions of Python values

What a conversion raises is never an exception of the wrapped call. Whether a dictionary can be converted does not depend
on which strings are in a list of strings.
-/

namespace AttowNexus

namespace Python

open Checks

variable {Obj Exc : Type}

/-- An exception that does not come from the wrapped call -/
def Exn.Own (raised : Exn Exc) : Prop := ∀ exception, raised ≠ .wrapped exception

namespace Value

variable {interpreter : Interpreter Obj Exc} {fuel : ℕ} {around : List ℕ} {value : Value Obj}

section Own

theorem ofMethod_own {α : Type} (outcome : Except Exc α) : Refuses Exn.Own (ofMethod outcome) :=
  Refuses.mapError fun _ => nofun

theorem print_own (value : Value Obj) : Refuses Exn.Own (value.print interpreter) := by
  cases value with
  | str text => exact .ok _
  | _ => exact ofMethod_own _

theorem dumpsKey_own (key : Value Obj) : Refuses Exn.Own (dumpsKey interpreter key) := by
  cases key with
  | int value => exact .ite (.ok _) (.error nofun)
  | none => exact .ok _
  | bool flag => exact .ok _
  | float bits => exact .ok _
  | str text => exact .ok _
  | _ => exact .error nofun

theorem dumps_own (fuel : ℕ) (around : List ℕ) (value : Value Obj) :
    Refuses Exn.Own (dumps interpreter fuel around value) := by
  induction fuel generalizing around value with
  | zero =>
    cases value with
    | int value => exact .ite (.ok _) (.error nofun)
    | none => exact .ok _
    | bool flag => exact .ok _
    | float bits => exact .ok _
    | str text => exact .ok _
    | _ => exact .error nofun
  | succ fuel ih =>
    cases value with
    | int value => exact .ite (.ok _) (.error nofun)
    | none => exact .ok _
    | bool flag => exact .ok _
    | float bits => exact .ok _
    | str text => exact .ok _
    | set items => exact .error nofun
    | object name => exact .error nofun
    | list items => exact .forM fun item _ => ih around item
    | tuple items => exact .forM fun item _ => ih around item
    | dict entries => exact .forM fun entry _ => .bind (dumpsKey_own entry.1) fun _ => ih around entry.2
    | named reference => exact .ite (.error nofun) (ih _ _)

theorem safeJsonable_own (fuel : ℕ) (value : Value Obj) : Refuses Exn.Own (safeJsonable interpreter fuel value) := by
  induction fuel generalizing value with
  | zero => exact .error nofun
  | succ fuel ih =>
    rw [safeJsonable.eq_def]
    split
    · exact .error nofun
    · rename_i same
      obtain rfl := Nat.succ.inj same
      split
      · exact .ok _
      · split
        · exact .ok _
        · split
          · refine .bind (ofMethod_own _) fun dumped => ?_
            split
            · exact ih _
            · refine .bind (ofMethod_own _) fun dumped => ?_
              split
              · exact ih _
              · exact .ite (.ok _) (.map (ofMethod_own _))
          · refine .bind (.mapM fun entry _ => ?_) fun _ => .ok _
            exact .bind (print_own entry.1) fun _ => .bind (ih entry.2) fun _ => .ok _
          · exact .map (.mapM fun item _ => ih item)
          · exact .map (.mapM fun item _ => ih item)
          · exact .map (.mapM fun item _ => ih item)
          · exact ih _
          · exact .ok _
        · rename_i raised _ failed
          exact .error (dumps_own _ _ _ raised failed)

theorem summarizePayload_own (value : Value Obj) : Refuses Exn.Own (summarizePayload interpreter value) :=
  .bind (safeJsonable_own _ _) fun _ => .bind (ofMethod_own _) fun _ => .ok _

theorem deepcopy_own (fuel : ℕ) (around : List ℕ) (value : Value Obj) :
    Refuses Exn.Own (deepcopy interpreter fuel around value) := by
  induction fuel generalizing around value with
  | zero => exact .error nofun
  | succ fuel ih =>
    cases value with
    | list items => exact .forM fun item _ => ih around item
    | tuple items => exact .forM fun item _ => ih around item
    | set items => exact .forM fun item _ => ih around item
    | dict entries => exact .forM fun entry _ => .bind (ih around entry.1) fun _ => ih around entry.2
    | object name => exact ofMethod_own _
    | named reference => exact .ite (.ok _) (ih _ _)
    | _ => exact .ok _

theorem redact_own {engine : RegexEngine} (fuel : ℕ) (value : Value Obj) :
    Refuses Exn.Own (redact interpreter engine fuel value) := by
  induction fuel generalizing value with
  | zero => exact .error nofun
  | succ fuel ih =>
    cases value with
    | dict entries =>
      refine .bind (.mapM fun entry _ => ?_) fun _ => .ok _
      rcases entry with ⟨key, child⟩
      cases key with
      | str text => exact .ite (.ok _) (.map (ih child))
      | _ => exact .error nofun
    | list items => exact .map (.mapM fun item _ => ih item)
    | named reference => exact ih _
    | _ => exact .ok _

end Own

section Entries

theorem isKey_iff {name : String} {key : Value Obj} : key.isKey name = true ↔ key = .str name := by
  cases key <;> simp [isKey]

theorem mem_setEntry_iff {name : String} {entries : List (Value Obj × Value Obj)} {entry : Value Obj × Value Obj} :
    entry ∈ setEntry name value entries ↔
      entry = (.str name, value) ∨ entry ∈ entries ∧ entry.1 ≠ .str name := by
  rw [setEntry]
  split
  · next known =>
    simp only [List.any_eq_true, isKey_iff] at known
    obtain ⟨old, inside, named⟩ := known
    rw [List.mem_map]
    constructor
    · rintro ⟨other, member, rfl⟩
      split
      · next here => exact .inl (by rw [isKey_iff.1 here])
      · next apart => exact .inr ⟨member, fun here => apart (isKey_iff.2 here)⟩
    · rintro (rfl | ⟨member, apart⟩)
      · exact ⟨old, inside, by rw [if_pos (isKey_iff.2 named), named]⟩
      · exact ⟨entry, member, if_neg fun here => apart (isKey_iff.1 here)⟩
  · next unknown =>
    simp only [List.any_eq_true, isKey_iff, not_exists, not_and] at unknown
    rw [List.mem_append, List.mem_singleton, or_comm]
    exact or_congr_right (iff_self_and.mpr fun member => unknown entry member)

end Entries

section Alike

/-- Entries that differ in lists of strings at most -/
def Alike (entry other : Value Obj × Value Obj) : Prop :=
  entry.1 = other.1 ∧ (entry.2 = other.2 ∨
    ∃ texts others : List String, entry.2 = .list (texts.map .str) ∧ other.2 = .list (others.map .str))

variable {entries others : List (Value Obj × Value Obj)}

theorem forM_dumps_texts (texts : List String) :
    (texts.map .str).forM (dumps interpreter fuel around) = .ok () := by
  refine forM_eq_ok_iff.2 fun item member => ?_
  obtain ⟨text, _, rfl⟩ := List.mem_map.mp member
  cases fuel <;> rfl

theorem dumps_texts (texts other : List String) : dumps interpreter fuel around (.list (texts.map .str)) =
    dumps interpreter fuel around (.list (other.map .str)) := by
  cases fuel with
  | zero => rfl
  | succ fuel =>
    rw [dumps, dumps]
    exact (forM_dumps_texts texts).trans (forM_dumps_texts other).symm

theorem dumps_alike (alike : List.Forall₂ Alike entries others) :
    dumps interpreter fuel around (.dict entries) = dumps interpreter fuel around (.dict others) := by
  cases fuel with
  | zero => rfl
  | succ fuel =>
    rw [dumps, dumps]
    refine forM_congr (alike.imp fun entry other same => ?_)
    rcases entry with ⟨key, child⟩
    rcases other with ⟨key', child'⟩
    obtain ⟨rfl, same⟩ := same
    dsimp only at same ⊢
    rcases same with rfl | ⟨texts, texts', rfl, rfl⟩
    · rfl
    · rw [dumps_texts texts texts']

theorem isOk_safeJsonable_texts (texts other : List String) :
    (safeJsonable interpreter fuel (.list (texts.map .str))).isOk =
      (safeJsonable interpreter fuel (.list (other.map .str))).isOk := by
  cases fuel with
  | zero => rfl
  | succ fuel =>
    simp only [safeJsonable]
    rw [dumps_texts texts other]
    generalize interpreter.recursionLimit = limit
    cases limit with
    | zero => rfl
    | succ limit =>
      have fine : dumps interpreter (limit + 1) [] (.list (other.map .str)) = .ok () := by
        rw [dumps]
        exact forM_dumps_texts other
      rw [fine]
      rfl

/-- Whether a dictionary is converted does not depend on its lists of strings. -/
theorem isOk_safeJsonable_alike (alike : List.Forall₂ Alike entries others) :
    (safeJsonable interpreter fuel (.dict entries)).isOk = (safeJsonable interpreter fuel (.dict others)).isOk := by
  cases fuel with
  | zero => rfl
  | succ fuel =>
    simp only [safeJsonable]
    rw [dumps_alike alike]
    split
    · rfl
    · refine isOk_bind_congr (isOk_mapM_congr (alike.imp fun entry other same => ?_)) fun _ _ _ _ => rfl
      rcases entry with ⟨key, child⟩
      rcases other with ⟨key', child'⟩
      obtain ⟨rfl, same⟩ := same
      dsimp only at same ⊢
      rcases same with rfl | ⟨texts, texts', rfl, rfl⟩
      · rfl
      · refine isOk_bind_congr rfl fun _ _ _ _ => ?_
        exact isOk_bind_congr (isOk_safeJsonable_texts texts texts') fun _ _ _ _ => rfl
    · rfl

end Alike

end Value

end Python

end AttowNexus
