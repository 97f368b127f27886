import Mathlib.Data.List.Basic
import Mathlib.Data.Int.Notation
import Mathlib.Data.Nat.Notation
import Mathlib.Data.String.Basic

/-! # JSON values

`serde_json::Value`, whose objects are maps in key order. A raw value may list its members in any
order; `JsonValue` packages the values that can really occur, with strictly ascending keys in every
object.
-/

namespace AttowNexus

/-- `serde_json::Number`; a double is its bit pattern. -/
inductive JsonNumber where
  | posInt (value : ℕ)
  | negInt (value : ℤ)
  | float (bits : UInt64)
deriving DecidableEq, Repr, Inhabited

inductive Json where
  | null
  | bool (flag : Bool)
  | number (value : JsonNumber)
  | string (text : String)
  | array (items : List Json)
  | object (members : List (String × Json))
deriving Repr, Inhabited

abbrev JsonMap := List (String × Json)

namespace JsonMap

/-- `Map::get`. -/
def get (key : String) (members : JsonMap) : Option Json :=
  (members.find? fun member => member.1 = key).map (·.2)

/-- `Map::insert`, at the place of the key in the order. -/
def insert (key : String) (value : Json) : JsonMap → JsonMap
  | [] => [(key, value)]
  | (other, old) :: rest =>
      if key < other then (key, value) :: (other, old) :: rest
      else if key = other then (key, value) :: rest
      else (other, old) :: insert key value rest

/-- The map that `json!` builds from its members. -/
def ofMembers (members : List (String × Json)) : JsonMap :=
  members.foldl (fun built member => insert member.1 member.2 built) []

/-- Keys in strictly ascending order. -/
def Ascending (members : JsonMap) : Prop := (members.map (·.1)).Pairwise (· < ·)

/-- Inserting a key above all others appends it. -/
theorem insert_of_forall_lt {key : String} {value : Json} {members : JsonMap}
    (above : ∀ member ∈ members, member.1 < key) : insert key value members = members ++ [(key, value)] := by
  induction members with
  | nil => rfl
  | cons member rest ih =>
    have lower : member.1 < key := above member List.mem_cons_self
    rw [insert, if_neg (lt_asymm lower), if_neg lower.ne', ih fun other later =>
      above other (List.mem_cons_of_mem _ later), List.cons_append]

theorem mem_keys_insert {key other : String} {value : Json} {members : JsonMap}
    (member : other ∈ (insert key value members).map (·.1)) : other = key ∨ other ∈ members.map (·.1) := by
  induction members with
  | nil => exact .inl (List.mem_singleton.mp member)
  | cons head rest ih =>
    obtain ⟨first, old⟩ := head
    rw [insert] at member
    split_ifs at member with below same
    · simpa only [List.map_cons, List.mem_cons] using member
    · rw [List.map_cons, List.mem_cons] at member
      exact member.imp_right (List.mem_cons_of_mem _)
    · rw [List.map_cons, List.mem_cons] at member
      rcases member with here | later
      · exact .inr (here ▸ List.mem_cons_self)
      · exact (ih later).imp_right (List.mem_cons_of_mem _)

/-- Insertion keeps the keys ascending. -/
theorem Ascending.insert {key : String} {value : Json} {members : JsonMap} (ascending : Ascending members) :
    Ascending (JsonMap.insert key value members) := by
  induction members with
  | nil => exact List.pairwise_singleton _ _
  | cons head rest ih =>
    obtain ⟨first, old⟩ := head
    rw [Ascending, List.map_cons, List.pairwise_cons] at ascending
    obtain ⟨lowest, ordered⟩ := ascending
    rw [JsonMap.insert]
    split_ifs with below same
    · rw [Ascending, List.map_cons, List.map_cons, List.pairwise_cons, List.pairwise_cons]
      refine ⟨fun other member => ?_, lowest, ordered⟩
      rcases List.mem_cons.mp member with here | later
      · exact here ▸ below
      · exact below.trans (lowest other later)
    · subst same
      rw [Ascending, List.map_cons, List.pairwise_cons]
      exact ⟨lowest, ordered⟩
    · have above : first < key := lt_of_le_of_ne (not_lt.mp below) fun back => same back.symm
      rw [Ascending, List.map_cons, List.pairwise_cons]
      refine ⟨fun other member => ?_, ih ordered⟩
      rcases mem_keys_insert member with here | later
      · exact here ▸ above
      · exact lowest other later

theorem ofMembers_ascending (members : List (String × Json)) : Ascending (ofMembers members) := by
  have grow : ∀ built : JsonMap, Ascending built →
      Ascending (members.foldl (fun built member => JsonMap.insert member.1 member.2 built) built) := by
    induction members with
    | nil => exact fun _ ascending => ascending
    | cons member rest ih => exact fun built ascending => ih _ ascending.insert
  exact grow [] List.Pairwise.nil

theorem get_cons {key other : String} {value : Json} {rest : JsonMap} :
    get key ((other, value) :: rest) = if other = key then some value else get key rest := by
  by_cases same : other = key
  · simp [get, same]
  · simp [get, same]

theorem get_insert {key other : String} {value : Json} {members : JsonMap} :
    get key (insert other value members) = if other = key then some value else get key members := by
  induction members with
  | nil => exact get_cons
  | cons head rest ih =>
    obtain ⟨first, old⟩ := head
    rw [insert]
    by_cases below : other < first
    · rw [if_pos below, get_cons]
    · by_cases here : other = first
      · rw [if_neg below, if_pos here, get_cons, get_cons, ← here]
        split_ifs
        · rfl
        · rfl
      · rw [if_neg below, if_neg here, get_cons, ih, get_cons]
        by_cases same : other = key
        · rw [if_pos same, if_pos same, if_neg fun found => here (same.trans found.symm)]
        · rw [if_neg same, if_neg same]

theorem get_eq_none_iff {key : String} {members : JsonMap} :
    get key members = none ↔ key ∉ members.map (·.1) := by
  rw [get, Option.map_eq_none_iff, List.find?_eq_none, List.mem_map]
  constructor
  · rintro absent ⟨member, inside, rfl⟩
    exact absent member inside (decide_eq_true rfl)
  · intro absent member inside same
    exact absent ⟨member, inside, of_decide_eq_true same⟩

/-- With distinct keys, the order of the members does not matter. -/
theorem get_ofMembers {key : String} {members : List (String × Json)} (distinct : (members.map (·.1)).Nodup) :
    get key (ofMembers members) = get key members := by
  have grow : ∀ built : JsonMap, get key (members.foldl (fun built member => insert member.1 member.2 built) built) =
      (get key members).or (get key built) := by
    induction members with
    | nil => exact fun _ => rfl
    | cons member rest ih =>
      obtain ⟨first, value⟩ := member
      obtain ⟨new, distinct⟩ := List.nodup_cons.mp distinct
      intro built
      rw [List.foldl_cons, ih distinct, get_insert, get_cons]
      split_ifs with same
      · rw [get_eq_none_iff.2 (same ▸ new)]
        rfl
      · rfl
  rw [ofMembers, grow]
  exact Option.or_none

theorem get_eq_none_of_forall_lt {key : String} {members : JsonMap}
    (above : ∀ member ∈ members, member.1 < key) : get key members = none := by
  rw [get, List.find?_eq_none.mpr fun member inside => ?_, Option.map_none]
  simpa using (above member inside).ne

/-- With distinct keys, dropping members by their value drops what is found. -/
theorem get_filter {key : String} {members : JsonMap} {keep : Json → Bool} (distinct : (members.map (·.1)).Nodup) :
    get key (members.filter fun member => keep member.2) = (get key members).filter keep := by
  induction members with
  | nil => rfl
  | cons member rest ih =>
    obtain ⟨first, value⟩ := member
    obtain ⟨new, distinct⟩ := List.nodup_cons.mp distinct
    have later := ih distinct
    rw [get_cons, List.filter_cons]
    by_cases same : first = key
    · have absent : get key rest = none := get_eq_none_iff.2 (same ▸ new)
      rw [absent, Option.filter_none] at later
      rw [if_pos same, Option.filter_some]
      split_ifs with kept
      · rw [get_cons, if_pos same]
      · exact later
    · rw [if_neg same, ← later]
      split_ifs with kept
      · rw [get_cons, if_neg same]
      · rfl

end JsonMap

mutual

/-- Every object inside the value lists its members in strictly ascending key order. -/
def Json.Sorted : Json → Prop
  | .object members => JsonMap.Ascending members ∧ Json.SortedMembers members
  | .array items => Json.SortedItems items
  | _ => True

def Json.SortedItems : List Json → Prop
  | [] => True
  | item :: rest => Json.Sorted item ∧ Json.SortedItems rest

def Json.SortedMembers : List (String × Json) → Prop
  | [] => True
  | (_, value) :: rest => Json.Sorted value ∧ Json.SortedMembers rest

end

/-- `json!({..})` -/
def Json.ofMembers (members : List (String × Json)) : Json := .object (JsonMap.ofMembers members)

/-- A value as the parser builds it. -/
abbrev JsonValue := { value : Json // value.Sorted }

theorem Json.sorted_empty : (Json.object []).Sorted := ⟨List.Pairwise.nil, trivial⟩

mutual

/-- `merge_value` of `ledger/replay.rs`: objects are merged member by member, anything else replaces. -/
def mergeValue : Json → Json → Json
  | .object target, .object patch => .object (mergeMembers target patch)
  | _, patch => patch

/-- The loop over the patch: `entry(key).or_insert(Null)` and then merge into that slot. -/
def mergeMembers : List (String × Json) → List (String × Json) → List (String × Json)
  | target, [] => target
  | target, (key, value) :: rest =>
      let slot := (JsonMap.get key target).getD .null
      mergeMembers (JsonMap.insert key (mergeValue slot value) target) rest

end

/-- A null slot takes the patch as it is. -/
@[simp] theorem mergeValue_null (patch : Json) : mergeValue .null patch = patch := by
  cases patch <;> rfl

/-- Members above all keys of the target are appended in order. -/
theorem mergeMembers_of_ascending {target patch : JsonMap} (ascending : JsonMap.Ascending (target ++ patch)) :
    mergeMembers target patch = target ++ patch := by
  induction patch generalizing target with
  | nil => rw [mergeMembers, List.append_nil]
  | cons member rest ih =>
    obtain ⟨key, value⟩ := member
    have above : ∀ member ∈ target, member.1 < key := by
      intro member inside
      rw [JsonMap.Ascending, List.map_append] at ascending
      exact (List.pairwise_append.mp ascending).2.2 _ (List.mem_map_of_mem inside) _ (by simp)
    have shifted : JsonMap.Ascending ((target ++ [(key, value)]) ++ rest) := by
      simpa only [List.append_assoc, List.singleton_append] using ascending
    rw [mergeMembers, JsonMap.get_eq_none_of_forall_lt above, Option.getD_none, mergeValue_null,
      JsonMap.insert_of_forall_lt above, ih shifted, List.append_assoc, List.singleton_append]

/-- Merging an object into the empty object gives the object back. -/
theorem mergeValue_empty {patch : JsonMap} (ascending : JsonMap.Ascending patch) :
    mergeValue (.object []) (.object patch) = .object patch := by
  rw [mergeValue, mergeMembers_of_ascending (by simpa using ascending), List.nil_append]

section Sorted

theorem Json.SortedMembers.insert {key : String} {value : Json} {members : JsonMap}
    (sorted : Json.SortedMembers members) (new : value.Sorted) :
    Json.SortedMembers (JsonMap.insert key value members) := by
  induction members with
  | nil => exact ⟨new, trivial⟩
  | cons head rest ih =>
    obtain ⟨first, old⟩ := head
    rw [JsonMap.insert]
    split_ifs
    · exact ⟨new, sorted⟩
    · exact ⟨new, sorted.2⟩
    · exact ⟨sorted.1, ih sorted.2⟩

/-- The value under a key is sorted, and so is the null of an absent one. -/
theorem Json.SortedMembers.get {key : String} {members : JsonMap} (sorted : Json.SortedMembers members) :
    ((JsonMap.get key members).getD .null).Sorted := by
  induction members with
  | nil => exact trivial
  | cons head rest ih =>
    obtain ⟨first, old⟩ := head
    by_cases same : first = key
    · have found : JsonMap.get key ((first, old) :: rest) = some old := by simp [JsonMap.get, same]
      rw [found]
      exact sorted.1
    · have later : JsonMap.get key ((first, old) :: rest) = JsonMap.get key rest := by simp [JsonMap.get, same]
      rw [later]
      exact ih sorted.2

mutual

/-- Merging keeps the members of every object in order. -/
theorem mergeValue_sorted (target patch : Json) (left : target.Sorted) (right : patch.Sorted) :
    (mergeValue target patch).Sorted := by
  cases patch with
  | object patch =>
    cases target with
    | object target =>
      rw [mergeValue]
      exact mergeMembers_sorted target patch left right.2
    | _ => exact right
  | _ => cases target <;> exact right

theorem mergeMembers_sorted (target patch : JsonMap) (left : (Json.object target).Sorted)
    (right : Json.SortedMembers patch) : (Json.object (mergeMembers target patch)).Sorted := by
  cases patch with
  | nil => exact left
  | cons member rest =>
    obtain ⟨key, value⟩ := member
    rw [mergeMembers]
    have slot : (mergeValue ((JsonMap.get key target).getD .null) value).Sorted :=
      mergeValue_sorted _ value left.2.get right.1
    exact mergeMembers_sorted _ rest ⟨left.1.insert, left.2.insert slot⟩ right.2

end

theorem Json.ofMembers_sorted {members : List (String × Json)} (sorted : Json.SortedMembers members) :
    (Json.ofMembers members).Sorted := by
  have grow : ∀ built : JsonMap, Json.SortedMembers built →
      Json.SortedMembers (members.foldl (fun built member => JsonMap.insert member.1 member.2 built) built) := by
    induction members with
    | nil => exact fun _ kept => kept
    | cons member rest ih => exact fun built kept => ih sorted.2 _ (kept.insert sorted.1)
  exact ⟨JsonMap.ofMembers_ascending members, grow [] trivial⟩

end Sorted

end AttowNexus
