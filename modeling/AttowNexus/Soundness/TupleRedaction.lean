import AttowNexus.Library.Checks
import AttowNexus.Model.PythonData

/-! # Tuples are not redacted

`_redact` looks into dictionaries and lists, and a tuple is a list as soon as it is written. Redaction before and after
that agree on data exactly when there is nothing to redact in the tuples that the redaction comes to.
-/

namespace AttowNexus

namespace Python

open Checks

namespace Data

/-- A property of the leaves that passes from the parts of the data to the data holds of all data. -/
@[elab_as_elim]
theorem structural {motive : Data → Prop} (none : motive .none) (bool : ∀ flag, motive (.bool flag))
    (int : ∀ value, motive (.int value)) (float : ∀ bits, motive (.float bits)) (str : ∀ text, motive (.str text))
    (list : ∀ items, (∀ item ∈ items, motive item) → motive (.list items))
    (tuple : ∀ items, (∀ item ∈ items, motive item) → motive (.tuple items))
    (dict : ∀ entries, (∀ entry ∈ entries, motive entry.2) → motive (.dict entries)) (data : Data) :
    motive data :=
  @Data.rec motive (fun items => ∀ item ∈ items, motive item) (fun entries => ∀ entry ∈ entries, motive entry.2)
    (fun entry => motive entry.2) none bool int float str list tuple dict
    (fun _ absent => absurd absent List.not_mem_nil) (fun _ _ here later => List.forall_mem_cons.mpr ⟨here, later⟩)
    (fun _ absent => absurd absent List.not_mem_nil) (fun _ _ here later => List.forall_mem_cons.mpr ⟨here, later⟩)
    (fun _ _ here => here) data

variable {engine : RegexEngine}

section Lists

variable {Obj : Type} (items : List Data) (entries : List (String × Data))

theorem toItems_eq : (toItems items : List (Value Obj)) = items.map toValue := by
  induction items with
  | nil => rfl
  | cons item rest ih => rw [toItems, ih, List.map_cons]

theorem toEntries_eq : (toEntries entries : List (Value Obj × Value Obj)) =
    entries.map fun entry => (.str entry.1, entry.2.toValue) := by
  induction entries with
  | nil => rfl
  | cons entry rest ih => rw [toEntries, ih, List.map_cons]

theorem reloadedItems_eq : reloadedItems items = items.map reloaded := by
  induction items with
  | nil => rfl
  | cons item rest ih => rw [reloadedItems, ih, List.map_cons]

theorem reloadedEntries_eq : reloadedEntries entries = entries.map fun entry => (entry.1, entry.2.reloaded) := by
  induction entries with
  | nil => rfl
  | cons entry rest ih => rw [reloadedEntries, ih, List.map_cons]

theorem redactItems_eq : redactItems engine items = items.map (redact engine) := by
  induction items with
  | nil => rfl
  | cons item rest ih => rw [redactItems, ih, List.map_cons]

/-- What becomes of the value under a key -/
def redactUnder (engine : RegexEngine) (key : String) (child : Data) : Data :=
  if Sdk.secretKey key then .str redactionMarker else child.redact engine

theorem redactEntries_eq :
    redactEntries engine entries = entries.map fun entry => (entry.1, redactUnder engine entry.1 entry.2) := by
  induction entries with
  | nil => rfl
  | cons entry rest ih =>
    rw [redactEntries, ih, List.map_cons]
    rfl

end Lists

section Recursion

variable {Obj Exc : Type} {interpreter : Interpreter Obj Exc}

/-- A bound for each item gives a bound for the list. -/
theorem exists_depth {α : Type} {items : List α} {P : ℕ → α → Prop}
    (each : ∀ item ∈ items, ∃ depth, ∀ fuel, depth ≤ fuel → P fuel item) :
    ∃ depth, ∀ fuel, depth ≤ fuel → ∀ item ∈ items, P fuel item := by
  induction items with
  | nil => exact ⟨0, fun _ _ _ absent => absurd absent List.not_mem_nil⟩
  | cons item rest ih =>
    obtain ⟨here, later⟩ := List.forall_mem_cons.mp each
    obtain ⟨depth, first⟩ := here
    obtain ⟨depth', others⟩ := ih later
    exact ⟨max depth depth', fun fuel enough => List.forall_mem_cons.mpr
      ⟨first fuel (by omega), others fuel (by omega)⟩⟩

/-- On data the recursion of `_redact` ends, when it may go deep enough, with the redacted data. -/
theorem redact_toValue (data : Data) : ∃ depth, ∀ fuel, depth ≤ fuel →
    Value.redact interpreter engine fuel data.toValue = .ok (data.redact engine).toValue := by
  induction data using structural with
  | list items ih =>
    obtain ⟨depth, each⟩ := exists_depth ih
    refine ⟨depth + 1, fun fuel enough => ?_⟩
    obtain ⟨more, rfl⟩ := Nat.exists_eq_add_of_le' enough
    have all : (items.map toValue).mapM (Value.redact interpreter engine (more + depth)) =
        .ok (items.map fun item => (item.redact engine).toValue) := mapM_map_of_ok (each _ (by omega))
    rw [toValue, toItems_eq, redact, toValue, toItems_eq, redactItems_eq, List.map_map]
    exact congrArg (Except.map Value.list) all
  | dict entries ih =>
    obtain ⟨depth, each⟩ := exists_depth ih
    refine ⟨depth + 1, fun fuel enough => ?_⟩
    obtain ⟨more, rfl⟩ := Nat.exists_eq_add_of_le' enough
    rw [toValue, toEntries_eq, redact, toValue, toEntries_eq, redactEntries_eq, List.map_map]
    rw [show more + (depth + 1) = (more + depth) + 1 from rfl, Value.redact]
    refine bind_eq_ok_iff.2 ⟨_, mapM_map_of_ok fun entry member => ?_, rfl⟩
    obtain ⟨key, child⟩ := entry
    have inside := each (more + depth) (by omega) (key, child) member
    simp only [Function.comp_apply, redactUnder]
    split_ifs with secret
    · rfl
    · rw [inside]
      rfl
  | _ =>
    refine ⟨1, fun fuel enough => ?_⟩
    obtain ⟨fuel, rfl⟩ := Nat.exists_eq_succ_of_ne_zero (Nat.one_le_iff_ne_zero.mp enough)
    simp only [toValue, redact, Value.redact]

end Recursion

section Agreement

variable (engine)

/-- There is nothing to redact once tuples are lists: the patterns leave every string as it is, and there is the marker
under every secret key. -/
inductive Untouched : Data → Prop where
  | none : Untouched .none
  | bool (flag : Bool) : Untouched (.bool flag)
  | int (value : ℤ) : Untouched (.int value)
  | float (bits : UInt64) : Untouched (.float bits)
  | str {text : String} (same : Sdk.redactText engine text = text) : Untouched (.str text)
  | list {items : List Data} (each : ∀ item ∈ items, Untouched item) : Untouched (.list items)
  | tuple {items : List Data} (each : ∀ item ∈ items, Untouched item) : Untouched (.tuple items)
  | dict {entries : List (String × Data)}
      (marked : ∀ entry ∈ entries, Sdk.secretKey entry.1 = true → entry.2 = .str redactionMarker)
      (each : ∀ entry ∈ entries, Sdk.secretKey entry.1 = false → Untouched entry.2) : Untouched (.dict entries)

/-- There is nothing to redact in the tuples that are found without passing a secret key. -/
inductive TuplesUntouched : Data → Prop where
  | none : TuplesUntouched .none
  | bool (flag : Bool) : TuplesUntouched (.bool flag)
  | int (value : ℤ) : TuplesUntouched (.int value)
  | float (bits : UInt64) : TuplesUntouched (.float bits)
  | str (text : String) : TuplesUntouched (.str text)
  | list {items : List Data} (each : ∀ item ∈ items, TuplesUntouched item) : TuplesUntouched (.list items)
  | tuple {items : List Data} (each : ∀ item ∈ items, Untouched engine item) : TuplesUntouched (.tuple items)
  | dict {entries : List (String × Data)}
      (each : ∀ entry ∈ entries, Sdk.secretKey entry.1 = false → TuplesUntouched entry.2) :
      TuplesUntouched (.dict entries)

variable {engine}

theorem reloaded_eq_str_iff {data : Data} {text : String} : data.reloaded = .str text ↔ data = .str text := by
  cases data <;> simp [reloaded]

theorem redact_reloaded_items {items : List Data} :
    redactItems engine (reloadedItems items) = reloadedItems items ↔
      ∀ item ∈ items, item.reloaded.redact engine = item.reloaded := by
  rw [redactItems_eq, reloadedItems_eq, List.map_map, List.map_inj_left]
  exact Iff.rfl

/-- Nothing changes exactly in untouched data. -/
theorem redact_reloaded_iff {data : Data} : data.reloaded.redact engine = data.reloaded ↔ Untouched engine data := by
  induction data using structural with
  | none => exact iff_of_true rfl .none
  | bool flag => exact iff_of_true rfl (.bool flag)
  | int value => exact iff_of_true rfl (.int value)
  | float bits => exact iff_of_true rfl (.float bits)
  | str text =>
    change Data.str (Sdk.redactText engine text) = .str text ↔ _
    rw [Data.str.injEq]
    constructor
    · exact .str
    · intro untouched
      cases untouched with
      | str same => exact same
  | list items ih =>
    rw [reloaded, redact, Data.list.injEq, redact_reloaded_items]
    constructor
    · exact fun each => .list fun item member => (ih item member).mp (each item member)
    · intro untouched item member
      cases untouched with
      | list each => exact (ih item member).mpr (each item member)
  | tuple items ih =>
    rw [reloaded, redact, Data.list.injEq, redact_reloaded_items]
    constructor
    · exact fun each => .tuple fun item member => (ih item member).mp (each item member)
    · intro untouched item member
      cases untouched with
      | tuple each => exact (ih item member).mpr (each item member)
  | dict entries ih =>
    rw [reloaded, redact, Data.dict.injEq, redactEntries_eq, reloadedEntries_eq, List.map_map, List.map_inj_left]
    have each : ∀ entry ∈ entries,
        ((entry.1, redactUnder engine entry.1 entry.2.reloaded) = (entry.1, entry.2.reloaded) ↔
        (Sdk.secretKey entry.1 = true → entry.2 = .str redactionMarker) ∧
          (Sdk.secretKey entry.1 = false → Untouched engine entry.2)) := by
      intro entry member
      rw [Prod.mk.injEq, redactUnder]
      cases secret : Sdk.secretKey entry.1 with
      | true =>
        simp only [if_true, true_and, forall_const, Bool.true_eq_false, false_implies, and_true]
        exact eq_comm.trans reloaded_eq_str_iff
      | false =>
        simp only [Bool.false_eq_true, if_false, true_and, false_implies, forall_const]
        exact ih entry member
    constructor
    · intro same
      exact .dict (fun entry member => ((each entry member).mp (same entry member)).1)
        (fun entry member => ((each entry member).mp (same entry member)).2)
    · intro untouched entry member
      cases untouched with
      | dict marked inside => exact (each entry member).mpr ⟨marked entry member, inside entry member⟩

/-- Redaction before writing agrees with redaction after reading exactly when there is nothing to redact in tuples. -/
theorem redact_agrees_iff {data : Data} :
    (data.redact engine).reloaded = data.reloaded.redact engine ↔ TuplesUntouched engine data := by
  induction data using structural with
  | none => exact iff_of_true rfl .none
  | bool flag => exact iff_of_true rfl (.bool flag)
  | int value => exact iff_of_true rfl (.int value)
  | float bits => exact iff_of_true rfl (.float bits)
  | str text => exact iff_of_true rfl (.str text)
  | list items ih =>
    rw [reloaded, redact, redact, reloaded, Data.list.injEq, redactItems_eq, redactItems_eq, reloadedItems_eq,
      reloadedItems_eq, List.map_map, List.map_map, List.map_inj_left]
    constructor
    · exact fun each => .list fun item member => (ih item member).mp (each item member)
    · intro untouched item member
      cases untouched with
      | list each => exact (ih item member).mpr (each item member)
  | tuple items ih =>
    have unchanged : (Data.tuple items).redact engine = .tuple items := rfl
    rw [unchanged, reloaded, redact, Data.list.injEq, eq_comm, redact_reloaded_items]
    constructor
    · exact fun each => .tuple fun item member => redact_reloaded_iff.1 (each item member)
    · intro untouched item member
      cases untouched with
      | tuple each => exact redact_reloaded_iff.2 (each item member)
  | dict entries ih =>
    rw [reloaded, redact, redact, reloaded, Data.dict.injEq, redactEntries_eq, redactEntries_eq, reloadedEntries_eq,
      reloadedEntries_eq, List.map_map, List.map_map, List.map_inj_left]
    dsimp only [Function.comp_apply]
    have each : ∀ entry ∈ entries, ((entry.1, (redactUnder engine entry.1 entry.2).reloaded) =
        (entry.1, redactUnder engine entry.1 entry.2.reloaded) ↔
          (Sdk.secretKey entry.1 = false → TuplesUntouched engine entry.2)) := by
      intro entry member
      rw [Prod.mk.injEq, redactUnder, redactUnder]
      cases Sdk.secretKey entry.1 with
      | true => simp [reloaded]
      | false =>
        simp only [Bool.false_eq_true, if_false, true_and, forall_const]
        exact ih entry member
    constructor
    · exact fun same => .dict fun entry member => (each entry member).mp (same entry member)
    · intro untouched entry member
      cases untouched with
      | dict inside => exact (each entry member).mpr (inside entry member)

/-- The argument of a call, in the tuple of its positional arguments -/
private def tokenTuple : Data := .dict [("args", .tuple [.str "Bearer abc"])]

/-- A bearer token in a tuple is sent as it is; read back and redacted again, it would be replaced. -/
theorem tuple_not_redacted :
    (tokenTuple.redact .plain).reloaded = .dict [("args", .list [.str "Bearer abc"])] ∧
      tokenTuple.reloaded.redact .plain = .dict [("args", .list [.str "[REDACTED]"])] ∧
      (tokenTuple.redact .plain).reloaded ≠ tokenTuple.reloaded.redact .plain := by
  have plain : Sdk.secretKey "args" = false := by decide
  have replaced : Sdk.redactText .plain "Bearer abc" = "[REDACTED]" := by decide
  have sent : (tokenTuple.redact .plain).reloaded = .dict [("args", .list [.str "Bearer abc"])] := by
    simp only [tokenTuple, redact, redactEntries, plain, Bool.false_eq_true, if_false, reloaded, reloadedEntries,
      reloadedItems]
  have later : tokenTuple.reloaded.redact .plain = .dict [("args", .list [.str "[REDACTED]"])] := by
    simp only [tokenTuple, reloaded, reloadedEntries, reloadedItems, redact, redactEntries, redactItems, plain,
      replaced, Bool.false_eq_true, if_false]
  refine ⟨sent, later, ?_⟩
  rw [sent, later]
  simp

end Agreement

end Data

end Python

end AttowNexus
