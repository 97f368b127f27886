import AttowNexus.Model.Capture
import AttowNexus.Proofs.PythonValues

/-! # What a captured value is made of

`safe_jsonable` goes on with the parts of a value that `json.dumps` does not take, and keeps a part that it takes as it
is. So the strings of the result come from three places: strings that are cut, parts that are kept whole, and the
representations of objects. `safeJsonable` cuts every string and prints what JSON has no word for.
-/

namespace AttowNexus

open Checks Relation

/-- A cut string is within the bound and the mark exactly when the bound is no negative number. -/
theorem length_truncate_le_iff {α : Type} {mark letters : List α} {bound : ℤ} :
    ((truncate mark bound letters).length : ℤ) ≤ bound + mark.length ↔ 0 ≤ bound := by
  rw [truncate]
  split
  · next short => omega
  · next long =>
    rw [List.length_append, clip, List.length_take]
    split
    · next natural =>
      push_cast
      omega
    · next negative =>
      push_cast
      omega

namespace Python

namespace Value

variable {Obj Exc : Type} {interpreter : Interpreter Obj Exc} {fuel : ℕ} {value result : Value Obj}

section Parts

variable (interpreter)

/-- `json.dumps(value)` succeeds. -/
def Kept (value : Value Obj) : Prop := dumps interpreter interpreter.recursionLimit [] value = .ok ()

/-- `json.dumps(value)` raises a `TypeError`. -/
def Refused (value : Value Obj) : Prop := dumps interpreter interpreter.recursionLimit [] value = .error .typeError

/-- The string is a value inside the value. -/
inductive Holds : Value Obj → String → Prop where
  | str (text : String) : Holds (.str text) text
  | list {items item text} (member : item ∈ items) (inside : Holds item text) : Holds (.list items) text
  | tuple {items item text} (member : item ∈ items) (inside : Holds item text) : Holds (.tuple items) text
  | set {items item text} (member : item ∈ items) (inside : Holds item text) : Holds (.set items) text
  | dict {entries entry text} (member : entry ∈ entries) (inside : Holds entry.2 text) : Holds (.dict entries) text
  | named {reference text} (inside : Holds (interpreter.container reference) text) : Holds (.named reference) text

/-- `json.dumps` takes the value, given enough stack. -/
def Serialisable (value : Value Obj) : Prop := ∃ depth, dumps interpreter depth [] value = .ok ()

/-- An object that has no method to convert it -/
structure Plain (name : Obj) : Prop where
  modelDump : interpreter.modelDump name = .ok Option.none
  toDict : interpreter.toDict name = .ok Option.none

/-- The items of a list, tuple or set -/
def asItems : Value Obj → Option (List (Value Obj))
  | .list items => some items
  | .tuple items => some items
  | .set items => some items
  | _ => Option.none

/-- What a conversion goes on with. Of the entries whose keys print alike the last one counts. -/
inductive Part : Value Obj → Value Obj → Prop where
  | modelDump {name dumped} (made : interpreter.modelDump name = .ok (some dumped)) : Part (.object name) dumped
  | toDict {name dumped} (without : interpreter.modelDump name = .ok Option.none)
      (made : interpreter.toDict name = .ok (some dumped)) : Part (.object name) dumped
  | entry {before key child after text} (printed : print interpreter key = .ok text)
      (last : ∀ later ∈ after, print interpreter later.1 ≠ .ok text) :
      Part (.dict (before ++ (key, child) :: after)) child
  | item {value : Value Obj} {items item} (listed : value.asItems = some items) (member : item ∈ items) :
      Part value item
  | container {reference} : Part (.named reference) (interpreter.container reference)

/-- A part that the conversion goes on with, because `json.dumps` does not take the whole. -/
def Converts (value part : Value Obj) : Prop := value.Refused interpreter ∧ Part interpreter value part

/-- One call of `safe_jsonable`, with what the recursive calls return -/
inductive Level (next : Value Obj → Value Obj → Prop) : Value Obj → Value Obj → Prop where
  | text (own : String) : Level next (.str own) (.str (truncated own))
  | whole {value : Value Obj} (other : ∀ own, value ≠ .str own) (kept : value.Kept interpreter) : Level next value value
  | dumped {name : Obj} {dumped result : Value Obj} (part : Part interpreter (.object name) dumped)
      (later : next dumped result) : Level next (.object name) result
  | generator {name} (plain : Plain interpreter name) (generates : interpreter.isGenerator name = true) :
      Level next (.object name) (.str "[generator]")
  | repr {name text} (plain : Plain interpreter name) (other : interpreter.isGenerator name = false)
      (printed : interpreter.repr name = .ok text) : Level next (.object name) (.str text)
  | dict {entries converted} (refused : (Value.dict entries).Refused interpreter)
      (each : List.Forall₂ (fun entry child => print interpreter entry.1 = .ok child.1 ∧ next entry.2 child.2)
        entries converted) :
      Level next (.dict entries) (.dict (converted.foldl (fun entries (key, child) => setEntry key child entries) []))
  | items {value : Value Obj} {items converted : List (Value Obj)} (refused : value.Refused interpreter)
      (listed : value.asItems = some items) (each : List.Forall₂ next items converted) : Level next value (.list converted)
  | container {reference : ℕ} {result : Value Obj} (refused : (Value.named reference).Refused interpreter)
      (later : next (interpreter.container reference) result) : Level next (.named reference) result

end Parts

theorem ofMethod_eq_ok_iff {α : Type} {outcome : Except Exc α} {a : α} : ofMethod outcome = .ok a ↔ outcome = .ok a :=
  mapError_eq_ok_iff

theorem refused_object (name : Obj) : (Value.object name).Refused interpreter := by
  rw [Refused]
  cases interpreter.recursionLimit <;> rfl

/-- A call that returns has gone one of these ways. -/
theorem level_of_ok (run : safeJsonable interpreter (fuel + 1) value = .ok result) :
    Level interpreter (fun part result => safeJsonable interpreter fuel part = .ok result) value result := by
  rw [safeJsonable.eq_def] at run
  dsimp only at run
  split at run
  · obtain rfl := Except.ok.inj run
    exact .text _
  · next other =>
    split at run
    · next kept =>
      obtain rfl := Except.ok.inj run
      exact .whole other kept
    · next refused =>
      split at run
      · -- an object
        obtain ⟨dumped, made, run⟩ := bind_eq_ok_iff.1 run
        have made := ofMethod_eq_ok_iff.1 made
        split at run
        · exact .dumped (.modelDump made) run
        · obtain ⟨dumped, made', run⟩ := bind_eq_ok_iff.1 run
          have made' := ofMethod_eq_ok_iff.1 made'
          split at run
          · exact .dumped (.toDict made made') run
          · split at run
            · next generates =>
              obtain rfl := Except.ok.inj run
              exact .generator ⟨made, made'⟩ generates
            · next silent =>
              obtain ⟨text, printed, rfl⟩ := map_eq_ok_iff.1 run
              exact .repr ⟨made, made'⟩ (Bool.not_eq_true _ ▸ silent) (ofMethod_eq_ok_iff.1 printed)
      · -- a dictionary
        obtain ⟨converted, each, same⟩ := bind_eq_ok_iff.1 run
        obtain rfl := Except.ok.inj same
        refine .dict refused ((mapM_eq_ok_iff.1 each).imp fun entry child made => ?_)
        obtain ⟨text, printed, made⟩ := bind_eq_ok_iff.1 made
        obtain ⟨kept, later, same⟩ := bind_eq_ok_iff.1 made
        obtain rfl := Except.ok.inj same
        exact ⟨printed, later⟩
      · obtain ⟨converted, each, rfl⟩ := map_eq_ok_iff.1 run
        exact .items refused rfl (mapM_eq_ok_iff.1 each)
      · obtain ⟨converted, each, rfl⟩ := map_eq_ok_iff.1 run
        exact .items refused rfl (mapM_eq_ok_iff.1 each)
      · obtain ⟨converted, each, rfl⟩ := map_eq_ok_iff.1 run
        exact .items refused rfl (mapM_eq_ok_iff.1 each)
      · exact .container refused run
      · next noObject noDict noList noTuple noSet noReference =>
        -- what is left has no parts, and `json.dumps` takes it or raises a `ValueError`
        generalize interpreter.recursionLimit = limit at refused
        cases value with
        | none => cases limit <;> cases refused
        | bool flag => cases limit <;> cases refused
        | float bits => cases limit <;> cases refused
        | str text => exact absurd rfl (other text)
        | int number =>
          rw [dumps] at refused
          split at refused
          · cases refused
          · cases refused
        | object name => exact absurd rfl (noObject name)
        | dict entries => exact absurd rfl (noDict entries)
        | list items => exact absurd rfl (noList items)
        | tuple items => exact absurd rfl (noTuple items)
        | set items => exact absurd rfl (noSet items)
        | named reference => exact absurd rfl (noReference reference)
    · cases run

section Entries

/-- Of the assignments to one key the last one stays. -/
theorem mem_foldl_setEntry_iff {converted : List (String × Value Obj)} {entry : Value Obj × Value Obj} :
    entry ∈ converted.foldl (fun entries (key, child) => setEntry key child entries) [] ↔
      ∃ before name child after, converted = before ++ (name, child) :: after ∧
        (∀ later ∈ after, later.1 ≠ name) ∧ entry = (.str name, child) := by
  induction converted using List.reverseRecOn with
  | nil => simp
  | append_singleton converted last ih =>
    rw [List.foldl_append, List.foldl_cons, List.foldl_nil, mem_setEntry_iff, ih]
    constructor
    · rintro (rfl | ⟨⟨before, name, child, after, rfl, only, rfl⟩, apart⟩)
      · exact ⟨converted, last.1, last.2, [], rfl, nofun, rfl⟩
      · refine ⟨before, name, child, after ++ [last], by simp, fun later member => ?_, rfl⟩
        rcases List.mem_append.mp member with inside | inside
        · exact only later inside
        · rintro rfl
          exact apart (by rw [List.mem_singleton.mp inside])
    · rintro ⟨before, name, child, after, split, only, rfl⟩
      rcases List.eq_nil_or_concat after with rfl | ⟨after, final, rfl⟩
      · obtain ⟨rfl, same⟩ := List.append_inj' split rfl
        obtain rfl := List.singleton_inj.mp same
        exact .inl rfl
      · rw [List.concat_eq_append, ← List.cons_append, ← List.append_assoc] at split
        obtain ⟨rfl, same⟩ := List.append_inj' split rfl
        obtain rfl := List.singleton_inj.mp same
        rw [List.concat_eq_append] at only
        refine .inr ⟨⟨before, name, child, after, rfl, fun later inside => ?_, rfl⟩, ?_⟩
        · exact only later (List.mem_append_left _ inside)
        · intro same
          exact only last (by simp) (by simpa using same.symm)

end Entries

section Strings

variable (interpreter)

/-- The strings that a part puts into the result, if the conversion ends at it -/
inductive Emits : Value Obj → String → Prop where
  | text (own : String) : Emits (.str own) (truncated own)
  | whole {part : Value Obj} {text} (other : ∀ own, part ≠ .str own) (kept : part.Kept interpreter)
      (inside : Holds interpreter part text) : Emits part text
  | generator {name} (plain : Plain interpreter name) (generates : interpreter.isGenerator name = true) :
      Emits (.object name) "[generator]"
  | repr {name text} (plain : Plain interpreter name) (other : interpreter.isGenerator name = false)
      (printed : interpreter.repr name = .ok text) : Emits (.object name) text

/-- The conversion comes to a part that puts the string into the result. -/
def Reveals (value : Value Obj) (text : String) : Prop :=
  ∃ part, ReflTransGen (Converts interpreter) value part ∧ Emits interpreter part text

variable {interpreter}

/-- Where a conversion goes on, the strings are those of the parts. -/
theorem reveals_iff_of_refused (refused : value.Refused interpreter) (goesOn : ∀ text, ¬ Emits interpreter value text)
    {text : String} :
    value.Reveals interpreter text ↔ ∃ part, Part interpreter value part ∧ part.Reveals interpreter text := by
  constructor
  · rintro ⟨final, path, emits⟩
    rcases ReflTransGen.cases_head path with rfl | ⟨part, ⟨-, first⟩, rest⟩
    · exact absurd emits (goesOn text)
    · exact ⟨part, first, final, rest, emits⟩
  · rintro ⟨part, first, final, rest, emits⟩
    exact ⟨final, .head ⟨refused, first⟩ rest, emits⟩

/-- Where it ends, they are those of the value. -/
theorem reveals_iff_of_last (last : ∀ part, ¬ Converts interpreter value part) {text : String} :
    value.Reveals interpreter text ↔ Emits interpreter value text := by
  constructor
  · rintro ⟨final, path, emits⟩
    rcases ReflTransGen.cases_head path with rfl | ⟨part, first, _⟩
    · exact emits
    · exact absurd first (last part)
  · exact fun emits => ⟨value, .refl, emits⟩

theorem Refused.not_kept (refused : value.Refused interpreter) : ¬ value.Kept interpreter := by
  intro kept
  exact absurd (kept.symm.trans refused) nofun

theorem Kept.not_converts (kept : value.Kept interpreter) (part : Value Obj) : ¬ Converts interpreter value part :=
  fun converts => converts.1.not_kept kept

theorem kept_str (own : String) : (Value.str own : Value Obj).Kept interpreter := by
  rw [Kept]
  cases interpreter.recursionLimit <;> rfl

@[simp] theorem holds_str_iff {own text : String} : Holds interpreter (.str own) text ↔ text = own := by
  constructor
  · intro holds
    cases holds
    rfl
  · rintro rfl
    exact .str text

/-- What comes of a list are the strings of its items. -/
theorem holds_list_iff {items : List (Value Obj)} {text : String} :
    Holds interpreter (.list items) text ↔ ∃ item ∈ items, Holds interpreter item text := by
  constructor
  · intro holds
    cases holds with
    | list member inside => exact ⟨_, member, inside⟩
  · rintro ⟨item, member, inside⟩
    exact .list member inside

theorem holds_dict_iff {entries : List (Value Obj × Value Obj)} {text : String} :
    Holds interpreter (.dict entries) text ↔ ∃ entry ∈ entries, Holds interpreter entry.2 text := by
  constructor
  · intro holds
    cases holds with
    | dict member inside => exact ⟨_, member, inside⟩
  · rintro ⟨entry, member, inside⟩
    exact .dict member inside

/-- An object is converted by one method. -/
theorem Part.eq_of_object {name : Obj} {part other : Value Obj} (first : Part interpreter (.object name) part)
    (second : Part interpreter (.object name) other) : other = part := by
  cases first with
  | modelDump made =>
    cases second with
    | modelDump made' => exact Option.some.inj (Except.ok.inj (made'.symm.trans made))
    | toDict without => exact absurd (Except.ok.inj (without.symm.trans made)) nofun
    | item listed => exact absurd listed nofun
  | toDict without made =>
    cases second with
    | modelDump made' => exact absurd (Except.ok.inj (made'.symm.trans without)) nofun
    | toDict _ made' => exact Option.some.inj (Except.ok.inj (made'.symm.trans made))
    | item listed => exact absurd listed nofun
  | item listed => exact absurd listed nofun

theorem Plain.not_part {name : Obj} (plain : Plain interpreter name) (part : Value Obj) :
    ¬ Part interpreter (.object name) part := by
  intro made
  cases made with
  | modelDump made => exact absurd (Except.ok.inj (made.symm.trans plain.modelDump)) nofun
  | toDict _ made => exact absurd (Except.ok.inj (made.symm.trans plain.toDict)) nofun
  | item listed => exact absurd listed nofun

/-- The parts of a list, tuple or set are its items. -/
theorem part_iff_of_items {items : List (Value Obj)} (listed : value.asItems = some items) {part : Value Obj} :
    Part interpreter value part ↔ part ∈ items := by
  constructor
  · intro made
    cases made with
    | item listed' member => exact Option.some.inj (listed'.symm.trans listed) ▸ member
    | modelDump => exact absurd listed nofun
    | toDict => exact absurd listed nofun
    | entry => exact absurd listed nofun
    | container => exact absurd listed nofun
  · exact .item listed

/-- Matched lists have the same strings if each pair has. -/
theorem holds_items_iff {items converted : List (Value Obj)} {text : String}
    (each : List.Forall₂ (fun item made => Holds interpreter made text ↔ item.Reveals interpreter text)
      items converted) :
    (∃ made ∈ converted, Holds interpreter made text) ↔ ∃ item ∈ items, item.Reveals interpreter text := by
  constructor
  · rintro ⟨made, member, inside⟩
    obtain ⟨item, listed, same⟩ := forall₂_mem (List.Forall₂.flip each) member
    exact ⟨item, listed, same.mp inside⟩
  · rintro ⟨item, listed, reveals⟩
    obtain ⟨made, member, same⟩ := forall₂_mem each listed
    exact ⟨made, member, same.mpr reveals⟩

theorem holds_entries_iff {entries : List (Value Obj × Value Obj)} {converted : List (String × Value Obj)}
    {text : String}
    (each : List.Forall₂ (fun entry made => print interpreter entry.1 = .ok made.1 ∧
      (Holds interpreter made.2 text ↔ entry.2.Reveals interpreter text)) entries converted) :
    Holds interpreter (.dict (converted.foldl (fun entries (key, child) => setEntry key child entries) [])) text ↔
      ∃ part, Part interpreter (.dict entries) part ∧ part.Reveals interpreter text := by
  rw [holds_dict_iff]
  constructor
  · rintro ⟨entry, member, inside⟩
    obtain ⟨before, name, child, after, rfl, only, rfl⟩ := mem_foldl_setEntry_iff.1 member
    obtain ⟨before', ⟨key, own⟩, after', rfl, ⟨printed, same⟩, rest⟩ := forall₂_split (List.Forall₂.flip each)
    refine ⟨own, .entry printed fun later listed => ?_, same.mp inside⟩
    obtain ⟨made, there, printed', _⟩ := forall₂_mem (List.Forall₂.flip rest) listed
    rw [printed']
    exact fun again => only made there (Except.ok.inj again)
  · rintro ⟨part, made, reveals⟩
    cases made with
    | @entry before key _ after name printed last =>
      obtain ⟨before', ⟨name', child⟩, after', rfl, ⟨printed', same⟩, rest⟩ := forall₂_split each
      obtain rfl : name = name' := Except.ok.inj (printed.symm.trans printed')
      refine ⟨(.str name, child), mem_foldl_setEntry_iff.2 ⟨before', name, child, after', rfl, ?_, rfl⟩,
        same.mpr reveals⟩
      intro later member again
      obtain ⟨entry, listed, printed'', _⟩ := forall₂_mem (List.Forall₂.flip rest) member
      exact last entry listed (again ▸ printed'')
    | item listed => exact absurd listed nofun

/-- The strings of the result are those that the conversion reveals. -/
theorem holds_iff_reveals (run : safeJsonable interpreter fuel value = .ok result) {text : String} :
    Holds interpreter result text ↔ value.Reveals interpreter text := by
  induction fuel generalizing value result with
  | zero => exact absurd run nofun
  | succ fuel ih =>
    cases level_of_ok run with
    | text own =>
      rw [reveals_iff_of_last (kept_str own).not_converts, holds_str_iff]
      constructor
      · rintro rfl
        exact .text own
      · intro emits
        cases emits with
        | text => rfl
        | whole other => exact absurd rfl (other own)
    | whole other kept =>
      rw [reveals_iff_of_last kept.not_converts]
      constructor
      · exact .whole other kept
      · intro emits
        cases emits with
        | text own => exact absurd rfl (other own)
        | whole _ _ inside => exact inside
        | generator => exact absurd kept (refused_object _).not_kept
        | repr => exact absurd kept (refused_object _).not_kept
    | @dumped name dumped _ part later =>
      have goesOn : ∀ text, ¬ Emits interpreter (.object name) text := by
        intro text emits
        cases emits with
        | whole _ kept => exact (refused_object name).not_kept kept
        | generator plain => exact plain.not_part _ part
        | repr plain => exact plain.not_part _ part
      rw [reveals_iff_of_refused (refused_object name) goesOn, ih later]
      constructor
      · exact fun reveals => ⟨dumped, part, reveals⟩
      · rintro ⟨other, part', reveals⟩
        exact part.eq_of_object part' ▸ reveals
    | @generator name plain generates =>
      rw [reveals_iff_of_last fun part converts => plain.not_part part converts.2, holds_str_iff]
      constructor
      · rintro rfl
        exact .generator plain generates
      · intro emits
        cases emits with
        | whole _ kept => exact absurd kept (refused_object name).not_kept
        | generator => rfl
        | repr _ other => exact absurd (generates.symm.trans other) nofun
    | @repr name own plain other printed =>
      rw [reveals_iff_of_last fun part converts => plain.not_part part converts.2, holds_str_iff]
      constructor
      · rintro rfl
        exact .repr plain other printed
      · intro emits
        cases emits with
        | whole _ kept => exact absurd kept (refused_object name).not_kept
        | generator _ generates => exact absurd (generates.symm.trans other) nofun
        | repr _ _ printed' => exact Except.ok.inj (printed'.symm.trans printed)
    | @dict entries converted refused each =>
      have goesOn : ∀ text, ¬ Emits interpreter (.dict entries) text := by
        intro text emits
        cases emits with
        | whole _ kept => exact refused.not_kept kept
      rw [reveals_iff_of_refused refused goesOn]
      exact holds_entries_iff (each.imp fun entry made same => ⟨same.1, ih same.2⟩)
    | @items _ items converted refused listed each =>
      have goesOn : ∀ text, ¬ Emits interpreter value text := by
        intro text emits
        cases emits with
        | whole _ kept => exact refused.not_kept kept
        | text => exact absurd listed nofun
        | generator => exact absurd listed nofun
        | repr => exact absurd listed nofun
      rw [reveals_iff_of_refused refused goesOn, holds_list_iff,
        holds_items_iff (each.imp fun item made same => ih same)]
      exact exists_congr fun part => and_congr_left' (part_iff_of_items listed).symm
    | @container reference _ refused later =>
      have goesOn : ∀ text, ¬ Emits interpreter (.named reference) text := by
        intro text emits
        cases emits with
        | whole _ kept => exact refused.not_kept kept
      rw [reveals_iff_of_refused refused goesOn, ih later]
      constructor
      · exact fun reveals => ⟨_, .container, reveals⟩
      · rintro ⟨part, made, reveals⟩
        cases made with
        | container => exact reveals
        | item listed => exact absurd listed nofun

end Strings

section Serialisation

/-- More stack does no harm. -/
theorem dumps_of_le {depth more : ℕ} {around : List ℕ} (taken : dumps interpreter depth around value = .ok ())
    (le : depth ≤ more) : dumps interpreter more around value = .ok () := by
  induction depth generalizing more around value with
  | zero => cases value <;> cases more <;> first | exact taken | exact absurd taken nofun
  | succ depth ih =>
    obtain ⟨rest, rfl⟩ := Nat.exists_eq_succ_of_ne_zero (by omega : more ≠ 0)
    have less : depth ≤ rest := by omega
    cases value with
    | list items => exact forM_eq_ok_iff.2 fun item member => ih (forM_eq_ok_iff.1 taken item member) less
    | tuple items => exact forM_eq_ok_iff.2 fun item member => ih (forM_eq_ok_iff.1 taken item member) less
    | dict entries =>
      refine forM_eq_ok_iff.2 fun entry member => ?_
      obtain ⟨done, key, child⟩ := bind_eq_ok_iff.1 (forM_eq_ok_iff.1 taken entry member)
      exact bind_eq_ok_iff.2 ⟨done, key, ih child less⟩
    | named reference =>
      rw [dumps] at taken ⊢
      obtain ⟨fresh, inside⟩ := ite_error_eq_ok_iff.1 taken
      exact ite_error_eq_ok_iff.2 ⟨fresh, ih inside less⟩
    | _ => exact taken

theorem Serialisable.str (text : String) : (Value.str text : Value Obj).Serialisable interpreter := ⟨0, rfl⟩

/-- Finitely many values need some depth in common. -/
theorem exists_depth {items : List (Value Obj)} (each : ∀ item ∈ items, item.Serialisable interpreter) :
    ∃ depth, ∀ item ∈ items, dumps interpreter depth [] item = .ok () := by
  induction items with
  | nil => exact ⟨0, nofun⟩
  | cons item rest ih =>
    obtain ⟨⟨depth, taken⟩, later⟩ := List.forall_mem_cons.mp each
    obtain ⟨deep, others⟩ := ih later
    refine ⟨max depth deep, List.forall_mem_cons.mpr ⟨dumps_of_le taken (by omega), fun other member => ?_⟩⟩
    exact dumps_of_le (others other member) (by omega)

theorem Serialisable.list {items : List (Value Obj)} (each : ∀ item ∈ items, item.Serialisable interpreter) :
    (Value.list items).Serialisable interpreter := by
  obtain ⟨depth, taken⟩ := exists_depth each
  exact ⟨depth + 1, forM_eq_ok_iff.2 taken⟩

theorem Serialisable.dict {entries : List (Value Obj × Value Obj)}
    (each : ∀ entry ∈ entries, (∃ name, entry.1 = .str name) ∧ entry.2.Serialisable interpreter) :
    (Value.dict entries).Serialisable interpreter := by
  have children : ∀ item ∈ entries.map (·.2), item.Serialisable interpreter := by
    intro item member
    obtain ⟨entry, inside, rfl⟩ := List.mem_map.mp member
    exact (each entry inside).2
  obtain ⟨depth, taken⟩ := exists_depth children
  refine ⟨depth + 1, forM_eq_ok_iff.2 fun entry member => ?_⟩
  obtain ⟨⟨name, named⟩, _⟩ := each entry member
  refine bind_eq_ok_iff.2 ⟨(), ?_, taken _ (List.mem_map_of_mem member)⟩
  rw [named, dumpsKey]

/-- What `safe_jsonable` returns can be written as JSON. -/
theorem serialisable_of_ok (run : safeJsonable interpreter fuel value = .ok result) :
    result.Serialisable interpreter := by
  induction fuel generalizing value result with
  | zero => exact absurd run nofun
  | succ fuel ih =>
    cases level_of_ok run with
    | text own => exact .str _
    | whole other kept => exact ⟨_, kept⟩
    | dumped part later => exact ih later
    | generator plain generates => exact .str _
    | repr plain other printed => exact .str _
    | dict refused each =>
      refine .dict fun entry member => ?_
      obtain ⟨before, name, child, after, rfl, _, rfl⟩ := mem_foldl_setEntry_iff.1 member
      obtain ⟨_, _, _, _, ⟨_, later⟩, _⟩ := forall₂_split (List.Forall₂.flip each)
      exact ⟨⟨name, rfl⟩, ih later⟩
    | items refused listed each =>
      refine .list fun item member => ?_
      obtain ⟨own, _, later⟩ := forall₂_mem (List.Forall₂.flip each) member
      exact ih later
    | container refused later => exact ih later

end Serialisation

end Value

end Python

namespace TypeScript

namespace Datum

variable {maxStringChars : ℤ} {value : Datum} {text : Units}

/-- A property of the leaves that passes from the parts of a value to the value holds of all values. -/
@[elab_as_elim]
theorem structural {motive : Datum → Prop} (undefined : motive .undefined) (null : motive .null)
    (bool : ∀ flag, motive (.bool flag)) (number : ∀ bits, motive (.number bits))
    (string : ∀ units, motive (.string units)) (bigint : ∀ value, motive (.bigint value))
    (symbol : ∀ description, motive (.symbol description)) (function : motive .function)
    (array : ∀ items, (∀ item ∈ items, motive item) → motive (.array items))
    (object : ∀ entries, (∀ entry ∈ entries, motive entry.2) → motive (.object entries)) (value : Datum) :
    motive value :=
  @Datum.rec motive (fun items => ∀ item ∈ items, motive item) (fun entries => ∀ entry ∈ entries, motive entry.2)
    (fun entry => motive entry.2) undefined null bool number string bigint symbol function array object
    (fun _ absent => absurd absent List.not_mem_nil) (fun _ _ here later => List.forall_mem_cons.mpr ⟨here, later⟩)
    (fun _ absent => absurd absent List.not_mem_nil) (fun _ _ here later => List.forall_mem_cons.mpr ⟨here, later⟩)
    (fun _ _ here => here) value

/-- The string is a value inside the value. -/
inductive Holds : Datum → Units → Prop where
  | string (units : Units) : Holds (.string units) units
  | array {items item units} (member : item ∈ items) (inside : Holds item units) : Holds (.array items) units
  | object {entries entry units} (member : entry ∈ entries) (inside : Holds entry.2 units) :
      Holds (.object entries) units

/-- What a conversion goes on with, and makes part of its result. -/
inductive Part : Datum → Datum → Prop where
  | item {items item} (member : item ∈ items) : Part (.array items) item
  | property {entries entry} (member : entry ∈ entries) (own : entry.1 ≠ codeUnits "__proto__") :
      Part (.object entries) entry.2

/-- `String(value)` of a value that is not in JSON -/
inductive Prints : Datum → Units → Prop where
  | function : Prints .function (codeUnits "[function]")
  | bigint (value : ℤ) : Prints (.bigint value) (codeUnits (toString value))
  | symbol (description : Units) : Prints (.symbol description) (codeUnits "Symbol(" ++ description ++ codeUnits ")")

/-- The strings that a part puts into the result, if the conversion ends at it -/
inductive Emits (maxStringChars : ℤ) : Datum → Units → Prop where
  | string (own : Units) : Emits maxStringChars (.string own) (truncate (codeUnits truncationMark) maxStringChars own)
  | printed {part units} (prints : Prints part units) : Emits maxStringChars part units

/-- The conversion comes to a part that puts the string into the result. -/
def Reveals (maxStringChars : ℤ) (value : Datum) (text : Units) : Prop :=
  ∃ part, ReflTransGen Part value part ∧ Emits maxStringChars part text

theorem safeItems_eq (items : List Datum) :
    safeItems maxStringChars items = items.map (safeJsonable maxStringChars) := by
  induction items with
  | nil => rfl
  | cons item rest ih => rw [safeItems, ih, List.map_cons]

theorem mem_safeEntries_iff {entries : List (Units × Datum)} {made : Units × Datum} :
    made ∈ safeEntries maxStringChars entries ↔
      ∃ entry ∈ entries, entry.1 ≠ codeUnits "__proto__" ∧ made = (entry.1, entry.2.safeJsonable maxStringChars) := by
  induction entries with
  | nil => simp [safeEntries]
  | cons entry rest ih =>
    rw [safeEntries]
    split
    · next inherited => simp [ih, inherited]
    · next own => simp [ih, own]

/-- A part that is no string puts into the result what is printed of it. -/
theorem emits_iff (other : ∀ own, value ≠ .string own) : Emits maxStringChars value text ↔ Prints value text := by
  constructor
  · intro emits
    cases emits with
    | string own => exact absurd rfl (other own)
    | printed prints => exact prints
  · exact .printed

theorem holds_string_iff {units : Units} : Holds (.string units) text ↔ text = units := by
  constructor
  · intro holds
    cases holds
    rfl
  · rintro rfl
    exact .string text

/-- Where a conversion goes on, the strings are those of the parts. -/
theorem reveals_iff_of_parts (goesOn : ∀ units, ¬ Emits maxStringChars value units) :
    value.Reveals maxStringChars text ↔ ∃ part, Part value part ∧ part.Reveals maxStringChars text := by
  constructor
  · rintro ⟨final, path, emits⟩
    rcases ReflTransGen.cases_head path with rfl | ⟨part, first, rest⟩
    · exact absurd emits (goesOn text)
    · exact ⟨part, first, final, rest, emits⟩
  · rintro ⟨part, first, final, rest, emits⟩
    exact ⟨final, .head first rest, emits⟩

/-- Where it ends, they are those of the value. -/
theorem reveals_iff_of_last (last : ∀ part, ¬ Part value part) :
    value.Reveals maxStringChars text ↔ Emits maxStringChars value text := by
  constructor
  · rintro ⟨final, path, emits⟩
    rcases ReflTransGen.cases_head path with rfl | ⟨part, first, _⟩
    · exact emits
    · exact absurd first (last part)
  · exact fun emits => ⟨value, .refl, emits⟩

/-- A leaf that is no string reveals what is printed of it. -/
theorem reveals_leaf_iff (leaf : Datum) (text : Units) (last : ∀ part, ¬ Part leaf part)
    (other : ∀ own, leaf ≠ .string own) : leaf.Reveals maxStringChars text ↔ Prints leaf text :=
  (reveals_iff_of_last last).trans (emits_iff other)

theorem not_emits_of_not_prints (other : ∀ own, value ≠ .string own) (silent : ∀ units, ¬ Prints value units)
    (units : Units) : ¬ Emits maxStringChars value units :=
  fun emits => silent units ((emits_iff other).1 emits)

/-- The strings of the result are those that the conversion reveals. -/
theorem holds_iff_reveals :
    Holds (value.safeJsonable maxStringChars) text ↔ value.Reveals maxStringChars text := by
  induction value using structural with
  | array items ih =>
    have goesOn : ∀ units, ¬ Emits maxStringChars (.array items) units := not_emits_of_not_prints nofun nofun
    rw [safeJsonable, safeItems_eq, reveals_iff_of_parts goesOn]
    constructor
    · intro holds
      cases holds with
      | array member inside =>
        obtain ⟨item, listed, rfl⟩ := List.mem_map.mp member
        exact ⟨item, .item listed, (ih item listed).mp inside⟩
    · rintro ⟨part, made, reveals⟩
      cases made with
      | item listed => exact .array (List.mem_map_of_mem listed) ((ih part listed).mpr reveals)
  | object entries ih =>
    have goesOn : ∀ units, ¬ Emits maxStringChars (.object entries) units := not_emits_of_not_prints nofun nofun
    rw [safeJsonable, reveals_iff_of_parts goesOn]
    constructor
    · intro holds
      cases holds with
      | object member inside =>
        obtain ⟨entry, listed, own, rfl⟩ := mem_safeEntries_iff.1 member
        exact ⟨entry.2, .property listed own, (ih entry listed).mp inside⟩
    · rintro ⟨part, made, reveals⟩
      cases made with
      | @property _ entry listed own =>
        exact .object (mem_safeEntries_iff.2 ⟨entry, listed, own, rfl⟩) ((ih entry listed).mpr reveals)
  | string units =>
    have last : ∀ part, ¬ Part (.string units) part := nofun
    rw [safeJsonable, reveals_iff_of_last last, holds_string_iff]
    constructor
    · rintro rfl
      exact .string units
    · intro emits
      cases emits with
      | string => rfl
      | printed prints => cases prints
  | bigint number =>
    rw [reveals_leaf_iff (.bigint number) text nofun nofun, safeJsonable, holds_string_iff]
    exact ⟨fun same => same ▸ .bigint number, fun prints => by cases prints; rfl⟩
  | symbol description =>
    rw [reveals_leaf_iff (.symbol description) text nofun nofun, safeJsonable, holds_string_iff]
    exact ⟨fun same => same ▸ .symbol description, fun prints => by cases prints; rfl⟩
  | function =>
    rw [reveals_leaf_iff .function text nofun nofun, safeJsonable, holds_string_iff]
    exact ⟨fun same => same ▸ .function, fun prints => by cases prints; rfl⟩
  | undefined =>
    rw [reveals_leaf_iff .undefined text nofun nofun, safeJsonable]
    exact iff_of_false nofun nofun
  | null =>
    rw [reveals_leaf_iff .null text nofun nofun, safeJsonable]
    exact iff_of_false nofun nofun
  | bool flag =>
    rw [reveals_leaf_iff (.bool flag) text nofun nofun, safeJsonable]
    exact iff_of_false nofun nofun
  | number bits =>
    rw [reveals_leaf_iff (.number bits) text nofun nofun, safeJsonable]
    exact iff_of_false nofun nofun

/-- Nothing in the result is refused by `JSON.stringify`. -/
theorem throwsInJson_safeJsonable : (value.safeJsonable maxStringChars).throwsInJson = false := by
  induction value using structural with
  | array items ih =>
    rw [safeJsonable, safeItems_eq, throwsInJson]
    induction items with
    | nil => rfl
    | cons item rest later =>
      obtain ⟨here, others⟩ := List.forall_mem_cons.mp ih
      rw [List.map_cons, throwsInItems, here, later others, Bool.or_false]
  | object entries ih =>
    rw [safeJsonable, throwsInJson]
    induction entries with
    | nil => rfl
    | cons entry rest later =>
      obtain ⟨here, others⟩ := List.forall_mem_cons.mp ih
      rw [safeEntries]
      split
      · exact later others
      · rw [throwsInEntries, here, later others, Bool.or_false]
  | _ => rfl

/-- Only `undefined` is left that JSON has no text for. -/
theorem stringifies_safeJsonable_iff :
    (value.safeJsonable maxStringChars).stringifies = true ↔ value ≠ .undefined := by
  have fine := @throwsInJson_safeJsonable maxStringChars value
  cases value with
  | undefined => exact iff_of_false nofun fun other => other rfl
  | array items =>
    rw [safeJsonable] at fine ⊢
    exact iff_of_true (by simp only [stringifies, fine, Bool.not_false]) nofun
  | object entries =>
    rw [safeJsonable] at fine ⊢
    exact iff_of_true (by simp only [stringifies, fine, Bool.not_false]) nofun
  | _ => exact iff_of_true rfl nofun

end Datum

end TypeScript

end AttowNexus
