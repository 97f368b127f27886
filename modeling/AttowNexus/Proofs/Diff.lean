import AttowNexus.Library.Listing
import AttowNexus.Model.Diff
import Mathlib.Data.Option.Basic

/-! # Differences of JSON values

Two objects differ key by key: what a key contributes depends on the two values under it only, and the entries of two
objects are those of all their keys. The rest follows by induction on the values.
-/

namespace AttowNexus

section Induction

/-- A property of the leaves that passes from the parts of a value to the value holds of all values. -/
@[elab_as_elim]
theorem Json.structural {motive : Json → Prop} (null : motive .null) (bool : ∀ flag, motive (.bool flag))
    (number : ∀ value, motive (.number value)) (string : ∀ text, motive (.string text))
    (array : ∀ items, (∀ item ∈ items, motive item) → motive (.array items))
    (object : ∀ members, (∀ member ∈ members, motive member.2) → motive (.object members)) (value : Json) :
    motive value :=
  @Json.rec motive (fun items => ∀ item ∈ items, motive item) (fun members => ∀ member ∈ members, motive member.2)
    (fun member => motive member.2) null bool number string array object
    (fun _ absent => absurd absent List.not_mem_nil) (fun _ _ here later => List.forall_mem_cons.mpr ⟨here, later⟩)
    (fun _ absent => absurd absent List.not_mem_nil) (fun _ _ here later => List.forall_mem_cons.mpr ⟨here, later⟩)
    (fun _ _ here => here) value

end Induction

section Equality

/-- Equal as JSON values -/
def Json.Same (left right : Json) : Prop := left.eq right = true

theorem JsonNumber.eq_refl (value : JsonNumber) : value.eq value = true := by
  cases value <;> simp [JsonNumber.eq]

theorem JsonNumber.eq_symm {left right : JsonNumber} (same : left.eq right = true) : right.eq left = true := by
  cases left <;> cases right <;> simp only [JsonNumber.eq, decide_eq_true_eq, Bool.or_eq_true, Bool.and_eq_true,
    Bool.false_eq_true] at same ⊢
  · exact same.symm
  · exact same.symm
  · exact same.imp Eq.symm And.symm

theorem JsonNumber.eq_trans {left middle right : JsonNumber} (first : left.eq middle = true)
    (second : middle.eq right = true) : left.eq right = true := by
  cases left <;> cases middle <;> cases right <;> simp only [JsonNumber.eq, decide_eq_true_eq, Bool.or_eq_true,
    Bool.and_eq_true, Bool.false_eq_true] at first second ⊢
  · exact first.trans second
  · exact first.trans second
  · rcases first with rfl | ⟨zero, middleZero⟩
    · exact second
    · rcases second with rfl | ⟨_, zero'⟩
      · exact .inr ⟨zero, middleZero⟩
      · exact .inr ⟨zero, zero'⟩

theorem eqItems_iff {left right : List Json} :
    Json.eqItems left right = true ↔ List.Forall₂ Json.Same left right := by
  induction left generalizing right with
  | nil => cases right <;> simp [Json.eqItems]
  | cons item left ih =>
    cases right with
    | nil => simp [Json.eqItems]
    | cons other right => rw [Json.eqItems, Bool.and_eq_true, ih, List.forall₂_cons, Json.Same]

/-- The same key and equal values -/
def SameMember (left right : String × Json) : Prop := left.1 = right.1 ∧ left.2.Same right.2

theorem eqMembers_iff {left right : JsonMap} :
    Json.eqMembers left right = true ↔ List.Forall₂ SameMember left right := by
  induction left generalizing right with
  | nil => cases right <;> simp [Json.eqMembers]
  | cons member left ih =>
    cases right with
    | nil => simp [Json.eqMembers]
    | cons other right =>
      rw [Json.eqMembers, Bool.and_eq_true, Bool.and_eq_true, decide_eq_true_eq, ih, List.forall₂_cons, SameMember,
        Json.Same]

namespace Json.Same

variable {flag : Bool} {value : JsonNumber} {text : String} {items : List Json} {members : JsonMap} {right : Json}

theorem null_iff : Json.null.Same right ↔ right = .null := by
  cases right <;> simp [Same, Json.eq]

theorem bool_iff : (Json.bool flag).Same right ↔ right = .bool flag := by
  cases right <;> simp [Same, Json.eq, eq_comm]

theorem string_iff : (Json.string text).Same right ↔ right = .string text := by
  cases right <;> simp [Same, Json.eq, eq_comm]

theorem number_iff : (Json.number value).Same right ↔ ∃ other, right = .number other ∧ value.eq other = true := by
  cases right <;> simp [Same, Json.eq]

theorem array_iff : (Json.array items).Same right ↔ ∃ others, right = .array others ∧ List.Forall₂ Same items others := by
  cases right <;> simp [Same, Json.eq, eqItems_iff]

theorem object_iff :
    (Json.object members).Same right ↔ ∃ others, right = .object others ∧ List.Forall₂ SameMember members others := by
  cases right <;> simp [Same, Json.eq, eqMembers_iff]

theorem refl (value : Json) : value.Same value := by
  induction value using Json.structural with
  | null => exact null_iff.2 rfl
  | bool flag => exact bool_iff.2 rfl
  | number value => exact number_iff.2 ⟨value, rfl, value.eq_refl⟩
  | string text => exact string_iff.2 rfl
  | array items ih => exact array_iff.2 ⟨items, rfl, List.forall₂_same.mpr ih⟩
  | object members ih =>
    exact object_iff.2 ⟨members, rfl, List.forall₂_same.mpr fun member inside => ⟨rfl, ih member inside⟩⟩

theorem symm {left right : Json} (same : left.Same right) : right.Same left := by
  induction left using Json.structural generalizing right with
  | null => exact null_iff.1 same ▸ refl _
  | bool flag => exact bool_iff.1 same ▸ refl _
  | string text => exact string_iff.1 same ▸ refl _
  | number value =>
    obtain ⟨other, rfl, equal⟩ := number_iff.1 same
    exact number_iff.2 ⟨value, rfl, JsonNumber.eq_symm equal⟩
  | array items ih =>
    obtain ⟨others, rfl, equal⟩ := array_iff.1 same
    refine array_iff.2 ⟨items, rfl, ?_⟩
    clear same
    induction equal with
    | nil => exact .nil
    | cons head _ later =>
      obtain ⟨here, rest⟩ := List.forall_mem_cons.mp ih
      exact .cons (here head) (later rest)
  | object members ih =>
    obtain ⟨others, rfl, equal⟩ := object_iff.1 same
    refine object_iff.2 ⟨members, rfl, ?_⟩
    clear same
    induction equal with
    | nil => exact .nil
    | cons head _ later =>
      obtain ⟨here, rest⟩ := List.forall_mem_cons.mp ih
      exact .cons ⟨head.1.symm, here head.2⟩ (later rest)

theorem trans {left middle right : Json} (first : left.Same middle) (second : middle.Same right) :
    left.Same right := by
  induction left using Json.structural generalizing middle right with
  | null => exact null_iff.1 first ▸ second
  | bool flag => exact bool_iff.1 first ▸ second
  | string text => exact string_iff.1 first ▸ second
  | number value =>
    obtain ⟨other, rfl, equal⟩ := number_iff.1 first
    obtain ⟨last, rfl, equal'⟩ := number_iff.1 second
    exact number_iff.2 ⟨last, rfl, JsonNumber.eq_trans equal equal'⟩
  | array items ih =>
    obtain ⟨others, rfl, equal⟩ := array_iff.1 first
    obtain ⟨lasts, rfl, equal'⟩ := array_iff.1 second
    refine array_iff.2 ⟨lasts, rfl, ?_⟩
    clear first second
    induction equal generalizing lasts with
    | nil => exact equal'
    | cons head _ later =>
      obtain ⟨here, rest⟩ := List.forall_mem_cons.mp ih
      cases equal' with
      | cons next last => exact .cons (here head next) (later rest _ last)
  | object members ih =>
    obtain ⟨others, rfl, equal⟩ := object_iff.1 first
    obtain ⟨lasts, rfl, equal'⟩ := object_iff.1 second
    refine object_iff.2 ⟨lasts, rfl, ?_⟩
    clear first second
    induction equal generalizing lasts with
    | nil => exact equal'
    | cons head _ later =>
      obtain ⟨here, rest⟩ := List.forall_mem_cons.mp ih
      cases equal' with
      | cons next last => exact .cons ⟨head.1.trans next.1, here head.2 next.2⟩ (later rest _ last)

end Json.Same

end Equality

section Keys

namespace JsonMap

variable {members left right : JsonMap} {key : String} {value : Json}

theorem Ascending.nodup (ascending : Ascending members) : (members.map (·.1)).Nodup :=
  List.Pairwise.imp ne_of_lt ascending

theorem get_of_mem (distinct : (members.map (·.1)).Nodup) (member : (key, value) ∈ members) :
    get key members = some value := by
  induction members with
  | nil => exact absurd member List.not_mem_nil
  | cons head rest ih =>
    obtain ⟨first, old⟩ := head
    obtain ⟨new, distinct⟩ := List.nodup_cons.mp distinct
    rw [get_cons]
    rcases List.mem_cons.mp member with here | later
    · obtain ⟨rfl, rfl⟩ := Prod.mk.inj here
      exact if_pos rfl
    · rw [if_neg fun same => new (List.mem_map.mpr ⟨_, later, same.symm⟩), ih distinct later]

theorem mem_of_get (found : get key members = some value) : (key, value) ∈ members := by
  rw [get, Option.map_eq_some_iff] at found
  obtain ⟨member, found, rfl⟩ := found
  have named := List.find?_some found
  rw [decide_eq_true_eq] at named
  exact named ▸ List.mem_of_find?_eq_some found

/-- Maps are equal exactly when they have equal values under each key. -/
theorem eqMembers_iff_get (ascendingL : Ascending left) (ascendingR : Ascending right) :
    List.Forall₂ SameMember left right ↔ ∀ key, Option.Rel Json.Same (left.get key) (right.get key) := by
  constructor
  · intro same key
    induction same with
    | nil => exact .none
    | @cons member other _ _ head _ ih =>
      rw [get_cons, get_cons, head.1]
      split_ifs
      · exact .some head.2
      · exact ih (List.Pairwise.of_cons ascendingL) (List.Pairwise.of_cons ascendingR)
  · intro same
    induction left generalizing right with
    | nil =>
      cases right with
      | nil => exact .nil
      | cons member rest =>
        have here := same member.1
        rw [show get member.1 (member :: rest) = some member.2 by rw [get_cons, if_pos rfl]] at here
        cases here
    | cons member left ih =>
      obtain ⟨key, value⟩ := member
      have here := same key
      rw [get_cons, if_pos rfl] at here
      cases right with
      | nil => cases here
      | cons other right =>
        obtain ⟨key', value'⟩ := other
        obtain ⟨lowestL, restL⟩ := List.pairwise_cons.mp ascendingL
        obtain ⟨lowestR, restR⟩ := List.pairwise_cons.mp ascendingR
        have there := same key'
        -- A smallest key of one side is the smallest of the other.
        have equal : key = key' := by
          by_contra apart
          rw [get_cons, if_neg fun same => apart same.symm] at here
          rw [get_cons, if_neg apart, get_cons, if_pos rfl] at there
          have inR : key ∈ right.map (·.1) := by
            by_contra absent
            rw [get_eq_none_iff.2 absent] at here
            cases here
          have inL : key' ∈ left.map (·.1) := by
            by_contra absent
            rw [get_eq_none_iff.2 absent] at there
            cases there
          exact lt_asymm (lowestR key inR) (lowestL key' inL)
        subst equal
        rw [get_cons, if_pos rfl] at here
        cases here with
        | some here =>
          refine .cons ⟨rfl, here⟩ (ih restL restR fun other => ?_)
          by_cases own : key = other
          · subst own
            rw [get_eq_none_iff.2 fun inside => lt_irrefl _ (lowestL key inside),
              get_eq_none_iff.2 fun inside => lt_irrefl _ (lowestR key inside)]
            exact .none
          · have rest := same other
            rwa [get_cons, if_neg own, get_cons, if_neg own] at rest

end JsonMap

variable (deps : External)

/-- What one key contributes to the differences of two objects -/
def keyEntries (path : String) (before after : JsonMap) (key : String) : List DiffEntry :=
  match before.get key, after.get key with
  | some old, some new => diffValue deps (childPath path key) old new
  | some old, none => [diffEntry deps (childPath path key) "removed" old .null]
  | none, some new => [diffEntry deps (childPath path key) "added" .null new]
  | none, none => []

/-- The keys of two objects, in the order in which they are looked at -/
def diffKeys (before after : JsonMap) : List String :=
  (before.map (·.1)).filter (fun key => (after.get key).isNone) ++ after.map (·.1)

variable {deps} {path key : String} {before after : JsonMap}

theorem mem_diffKeys : key ∈ diffKeys before after ↔ key ∈ before.map (·.1) ∨ key ∈ after.map (·.1) := by
  rw [diffKeys, List.mem_append, List.mem_filter, Option.isNone_iff_eq_none, JsonMap.get_eq_none_iff]
  tauto

theorem nodup_diffKeys (distinctL : (before.map (·.1)).Nodup) (distinctR : (after.map (·.1)).Nodup) :
    (diffKeys before after).Nodup := by
  refine List.nodup_append.mpr ⟨distinctL.filter _, distinctR, fun key left other right same => ?_⟩
  have absent := (List.mem_filter.mp left).2
  rw [Option.isNone_iff_eq_none, JsonMap.get_eq_none_iff] at absent
  exact absent (same ▸ right)

/-- A key of neither object contributes nothing. -/
theorem keyEntries_of_notMem (absent : key ∉ diffKeys before after) : keyEntries deps path before after key = [] := by
  rw [mem_diffKeys, not_or] at absent
  rw [keyEntries, JsonMap.get_eq_none_iff.2 absent.1, JsonMap.get_eq_none_iff.2 absent.2]

/-- The differences of two objects, key by key -/
theorem diffValue_object (distinctL : (before.map (·.1)).Nodup) (distinctR : (after.map (·.1)).Nodup) :
    diffValue deps path (.object before) (.object after) =
      (diffKeys before after).flatMap (keyEntries deps path before after) := by
  rw [diffValue, diffKeys, List.flatMap_append]
  refine congrArg₂ (· ++ ·) ?_ ?_
  · have members : ∀ rest : JsonMap, (∀ member ∈ rest, member ∈ before) → removedEntries deps path rest after =
        ((rest.map (·.1)).filter (fun key => (after.get key).isNone)).flatMap (keyEntries deps path before after) := by
      intro rest inside
      induction rest with
      | nil => rfl
      | cons member rest ih =>
        obtain ⟨key, value⟩ := member
        obtain ⟨here, later⟩ := List.forall_mem_cons.mp inside
        have rest := ih later
        rw [removedEntries] at rest
        rw [removedEntries, List.flatMap_cons, rest, List.map_cons, List.filter_cons]
        by_cases gone : (after.get key).isNone = true
        · have own : keyEntries deps path before after key =
              [diffEntry deps (childPath path key) "removed" value .null] := by
            rw [keyEntries, JsonMap.get_of_mem distinctL here, Option.isNone_iff_eq_none.mp gone]
          rw [if_pos gone, List.flatMap_cons, own]
          simp only [if_pos gone]
        · simp only [if_neg gone, List.nil_append]
    exact members before fun _ inside => inside
  · have members : ∀ rest : JsonMap, (∀ member ∈ rest, member ∈ after) →
        keptEntries deps path before rest = (rest.map (·.1)).flatMap (keyEntries deps path before after) := by
      intro rest inside
      induction rest with
      | nil => rfl
      | cons member rest ih =>
        obtain ⟨key, value⟩ := member
        obtain ⟨here, later⟩ := List.forall_mem_cons.mp inside
        rw [keptEntries, ih later, List.map_cons, List.flatMap_cons, keyEntries, JsonMap.get_of_mem distinctR here]
        cases before.get key <;> rfl
    exact members after fun _ inside => inside

/-- Two values that are not both objects -/
def Whole (before after : Json) : Prop := ∀ left right, before = .object left → after ≠ .object right

theorem Whole.symm {before after : Json} (whole : Whole before after) : Whole after before :=
  fun left right same other => whole right left other same

/-- Two values are both objects, or they are compared as a whole. -/
theorem objects_or_whole (before after : Json) :
    (∃ left right, before = .object left ∧ after = .object right) ∨ Whole before after := by
  cases before <;> cases after <;> simp [Whole]

theorem diffValue_whole {before after : Json} (whole : Whole before after) : diffValue deps path before after =
    if before.eq after then [] else [diffEntry deps path "changed" before after] := by
  cases before <;> cases after <;> first | rfl | exact absurd rfl (whole _ _ rfl)

theorem mem_diffValue_whole {before after : Json} (whole : Whole before after) {entry : DiffEntry} :
    entry ∈ diffValue deps path before after ↔
      ¬ before.Same after ∧ entry = diffEntry deps path "changed" before after := by
  rw [diffValue_whole whole, List.mem_ite_nil_left, List.mem_singleton]
  exact Iff.rfl

theorem sortedMembers_iff {members : JsonMap} :
    Json.SortedMembers members ↔ ∀ member ∈ members, member.2.Sorted := by
  induction members with
  | nil => exact iff_of_true trivial fun _ absent => absurd absent List.not_mem_nil
  | cons member rest ih => rw [Json.SortedMembers, ih, List.forall_mem_cons]

/-- The value under a key of a sorted object is sorted. -/
theorem sorted_of_get {members : JsonMap} {value : Json} (sorted : (Json.object members).Sorted)
    (found : members.get key = some value) : value.Sorted :=
  sortedMembers_iff.1 sorted.2 (key, value) (JsonMap.mem_of_get found)

end Keys

end AttowNexus
